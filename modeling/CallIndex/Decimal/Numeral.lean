import CallIndex.Decimal.Binary64

/-!
# Decimal numerals

A numeral is decimal digits with a point among them or not, and perhaps a power of ten after the
letter `e`.

* `Numeral.ofChars?`: the numeral that a text is, without a sign.
* `Numeral.nearest?`: the nearest double precision number.
* `Numeral.equals`: whether it is a given natural number.
-/

namespace CallIndex.Decimal

/-- Drop one sign. -/
def dropSign : List Char → List Char
  | '-' :: rest => rest
  | '+' :: rest => rest
  | text => text

/-- A numeral: `significand · 10 ^ power`. -/
structure Numeral where
  significand : Nat
  /-- How many digits the significand has. Zeros in front do not count. -/
  digits : Nat
  power : Int
  deriving DecidableEq, Repr

/-- The number that decimal digits write. -/
def digitsValue (digits : List Char) : Nat :=
  digits.foldl (fun n c => n * 10 + (c.toNat - '0'.toNat)) 0

/-- The power of ten after the letter `e`, at the end of a text. -/
def powerOf? : List Char → Option Int
  | [] => some 0
  | c :: rest =>
    if c = 'e' || c = 'E' then
      let digits := dropSign rest
      if digits.isEmpty || !digits.all Char.isDigit then none
      else if rest.head? = some '-' then some (-(digitsValue digits : Int))
      else some (digitsValue digits : Int)
    else none

namespace Numeral

/-- The numeral that a text is. There is a digit before the point or after it. -/
def ofChars? (text : List Char) : Option Numeral := do
  let whole := text.takeWhile Char.isDigit
  let rest := text.dropWhile Char.isDigit
  let (fraction, rest) := match rest with
    | '.' :: rest => (rest.takeWhile Char.isDigit, rest.dropWhile Char.isDigit)
    | rest => ([], rest)
  if whole.isEmpty && fraction.isEmpty then none
  else
    let power ← powerOf? rest
    let digits := (whole ++ fraction).dropWhile fun c => c = '0'
    some ⟨digitsValue digits, digits.length, power - (fraction.length : Int)⟩

/-- The nearest double precision number, or none if the numeral is too large. -/
def nearest? (n : Numeral) : Option Binary64 :=
  let lead := n.power + n.digits
  if n.significand = 0 || lead < -400 then some .zero
  else if 400 < lead then none
  else Binary64.ofRatio (n.significand * Nat.pow 10 n.power.toNat) (Nat.pow 10 (-n.power).toNat)

/-- Whether the numeral is this natural number: exactly if it is written as a whole number, else
once it is rounded to double precision. -/
def equals (n : Numeral) (k : Nat) : Bool :=
  if n.power = 0 then n.significand = k
  else
    match n.nearest? with
    | some x => x.num = k * x.den
    | none => false

end Numeral

end CallIndex.Decimal
