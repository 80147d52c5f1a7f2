import CallIndex.Json.Text

/-!
# Numbers of JSON

* `Json.absorb`: read digits into a significand of at most 64 bits; the digits that do not fit are
  left over.
* `Json.readNumber`: a number after its sign. Digits that are left over of the whole part count as
  powers of ten, those of the fraction are dropped.
* `Json.skipNumber`: pass over a number, whatever its size.
-/

namespace CallIndex.Json

def isDigit (c : Char) : Bool := '0' ≤ c && c ≤ '9'

def digitValue (c : Char) : Nat := c.toNat - '0'.toNat

/-- The greatest significand, and the greatest exponent that is read digit by digit. -/
def maxSignificand : Nat := Nat.pow 2 64 - 1
def maxExponent : Nat := Nat.pow 2 31 - 1

/-- Read digits into a number up to a limit. The first digit that would pass the limit, and all
after it, are left over. -/
def absorb (limit : Nat) : Nat → List Char → Nat × List Char
  | n, [] => (n, [])
  | n, d :: digits =>
    if limit < n * 10 + digitValue d then (n, d :: digits)
    else absorb limit (n * 10 + digitValue d) digits

/-- A real number from its parts, or the fault of one that is too large. -/
def makeReal (negative : Bool) (significand : Nat) (exponent : Int) (rest : List Char) :
    Except Fault (Number × List Char) :=
  match Decimal.Binary64.ofScaled significand exponent with
  | some magnitude => .ok (.real negative magnitude, rest)
  | none => faultHere .numberTooLarge rest

/-- A whole number. It becomes a real one when it does not fit into 64 bits, and so does minus
zero. -/
def makeWhole (negative : Bool) (n : Nat) (rest : List Char) : Except Fault (Number × List Char) :=
  if !negative then .ok (.whole n, rest)
  else if n = 0 ∨ Nat.pow 2 63 < n then makeReal true n 0 rest
  else .ok (.whole (-n), rest)

/-- The part after the letter `e`. -/
def readExponent (negative : Bool) (significand : Nat) (exponent : Int) (text : List Char) :
    Except Fault (Number × List Char) :=
  let (below, text) :=
    match text with
    | '+' :: rest => (false, rest)
    | '-' :: rest => (true, rest)
    | text => (false, text)
  match text with
  | [] => faultHere .endInValue []
  | c :: _ =>
    if !isDigit c then faultNext .badNumber text
    else
      let digits := text.takeWhile isDigit
      let rest := text.dropWhile isDigit
      match absorb maxExponent 0 digits with
      | (n, []) => makeReal negative significand (if below then exponent - n else exponent + n) rest
      | (_, _ :: left) =>
        if significand ≠ 0 ∧ !below then faultHere .numberTooLarge (left ++ rest)
        else makeReal negative 0 0 rest

/-- The part after the point. -/
def readFraction (negative : Bool) (significand : Nat) (exponent : Int) (text : List Char) :
    Except Fault (Number × List Char) :=
  let digits := text.takeWhile isDigit
  let rest := text.dropWhile isDigit
  if digits.isEmpty then
    if rest.isEmpty then faultHere .endInValue [] else faultNext .badNumber rest
  else
    let (significand, left) := absorb maxSignificand significand digits
    let exponent := exponent - (digits.length - left.length : Nat)
    match rest with
    | 'e' :: rest => readExponent negative significand exponent rest
    | 'E' :: rest => readExponent negative significand exponent rest
    | rest => makeReal negative significand exponent rest

/-- What follows the digits of the whole part. -/
def readTail (negative : Bool) (digits rest : List Char) : Except Fault (Number × List Char) :=
  let (significand, left) := absorb maxSignificand 0 digits
  match rest with
  | '.' :: rest => readFraction negative significand left.length rest
  | 'e' :: rest => readExponent negative significand left.length rest
  | 'E' :: rest => readExponent negative significand left.length rest
  | rest =>
    if left.isEmpty then makeWhole negative significand rest
    else makeReal negative significand left.length rest

/-- A number after its sign. A zero at the front stands alone. -/
def readNumber (negative : Bool) (text : List Char) : Except Fault (Number × List Char) :=
  match text with
  | [] => faultHere .endInValue []
  | c :: rest =>
    if c = '0' then
      match rest with
      | d :: _ => if isDigit d then faultNext .badNumber rest else readTail negative ['0'] rest
      | [] => readTail negative ['0'] rest
    else if isDigit c then readTail negative (text.takeWhile isDigit) (text.dropWhile isDigit)
    else faultNext .badNumber text

/-- Pass over the part after the letter `e`. -/
def skipExponent (text : List Char) : Except Fault (List Char) :=
  let text :=
    match text with
    | '+' :: rest => rest
    | '-' :: rest => rest
    | text => text
  match text with
  | c :: _ => if isDigit c then .ok (text.dropWhile isDigit) else faultNext .badNumber text
  | [] => faultHere .badNumber []

/-- Pass over the part after the point. -/
def skipFraction (text : List Char) : Except Fault (List Char) :=
  let rest := text.dropWhile isDigit
  if (text.takeWhile isDigit).isEmpty then faultNext .badNumber rest
  else
    match rest with
    | 'e' :: rest => skipExponent rest
    | 'E' :: rest => skipExponent rest
    | rest => .ok rest

/-- Pass over a number after its sign. -/
def skipNumber (text : List Char) : Except Fault (List Char) := do
  let rest ←
    match text with
    | [] => faultHere .badNumber []
    | c :: rest =>
      if c = '0' then
        match rest with
        | d :: _ => if isDigit d then faultNext .badNumber rest else .ok rest
        | [] => .ok rest
      else if isDigit c then .ok (text.dropWhile isDigit)
      else faultNext .badNumber text
  match rest with
  | '.' :: rest => skipFraction rest
  | 'e' :: rest => skipExponent rest
  | 'E' :: rest => skipExponent rest
  | rest => .ok rest

end CallIndex.Json
