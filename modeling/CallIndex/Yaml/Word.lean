import CallIndex.Decimal.Numeral
import CallIndex.Yaml.Lexeme

/-!
# Words that are not texts

A plain scalar may mean null, a truth value or a number. A text that looks like one of them is
quoted when it is written.

* `Yaml.wholeNumber?`: the natural number that a word means.
* `Yaml.isNull`, `Yaml.isTruth`, `Yaml.isWhole`, `Yaml.isReal`: the words of each kind.
* `Yaml.isTextWord`: a word that means none of them.
-/

namespace CallIndex.Yaml

open Decimal

def isNull (w : String) : Bool := w = "null" || w = "Null" || w = "NULL" || w = "~"

def isTruth (w : String) : Bool :=
  w = "true" || w = "True" || w = "TRUE" || w = "false" || w = "False" || w = "FALSE"

/-- The value of a digit in a base up to 16. -/
def digitIn? (base : Nat) (c : Char) : Option Nat := (hexDigit? c).filter fun d => d < base

/-- The number that some digits write in a base. There is at least one digit. -/
def numberIn? (base : Nat) (digits : List Char) : Option Nat :=
  if digits.isEmpty then none
  else digits.foldlM (fun n c => (digitIn? base c).map fun d => n * base + d) 0

def startsWithSign : List Char → Bool
  | '-' :: _ => true
  | '+' :: _ => true
  | _ => false

/-- Digits with a zero in front: they are no number. -/
def isPadded (w : List Char) : Bool :=
  match dropSign w with
  | '0' :: d :: rest => (d :: rest).all fun c => c.isDigit
  | _ => false

/-- Drop a plus sign. -/
def dropPlus : List Char → List Char
  | '+' :: rest => rest
  | text => text

/-- The natural number below a limit that a word means: decimal, or with a base mark, perhaps after
a plus sign. -/
def wholeNumber? (limit : Nat) (w : List Char) : Option Nat :=
  let digits := dropPlus w
  let found :=
    match digits with
    | '0' :: 'x' :: rest => numberIn? 16 rest
    | '0' :: 'o' :: rest => numberIn? 8 rest
    | '0' :: 'b' :: rest => numberIn? 2 rest
    | _ => if isPadded w then none else numberIn? 10 digits
  found.filter fun n => n < limit

/-- The size of a negative number down to a limit that a word means. -/
def negativeNumber? (limit : Nat) (w : List Char) : Option Nat :=
  match w with
  | '-' :: digits =>
    let found :=
      match digits with
      | '0' :: 'x' :: rest => numberIn? 16 rest
      | '0' :: 'o' :: rest => numberIn? 8 rest
      | '0' :: 'b' :: rest => numberIn? 2 rest
      | _ => if isPadded w then none else numberIn? 10 digits
    found.filter fun n => n ≤ limit
  | _ => none

/-- A word that means a whole number of 128 bits. -/
def isWhole (w : String) : Bool :=
  (wholeNumber? (Nat.pow 2 128) w.toList).isSome ||
    (negativeNumber? (Nat.pow 2 127) w.toList).isSome

/-- A word that means a real number: infinity, no number, or a decimal number that is finite. -/
def isReal (w : String) : Bool :=
  let bare := dropPlus w.toList
  let text := String.ofList bare
  if bare.length < w.toList.length && startsWithSign bare then false
  else
    text = ".inf" || text = ".Inf" || text = ".INF" ||
      w = "-.inf" || w = "-.Inf" || w = "-.INF" ||
      w = ".nan" || w = ".NaN" || w = ".NAN" ||
      (Numeral.ofChars? (dropSign bare)).any fun n => n.nearest?.isSome

/-- A word that means nothing but itself. Digits with a zero in front are left out: other readers
take them for numbers. -/
def isTextWord (w : String) : Bool :=
  !(w = "" || isNull w || isTruth w || isWhole w || isPadded w.toList || isReal w)

end CallIndex.Yaml
