import CallIndex.Decimal.Binary64

/-!
# The shortest decimal that reads back

* `Binary64.shortest`: the digits of the shortest decimal that rounds to a number, and the power of
  ten of its first digit. Of two such decimals of the same length the nearer one is taken.
* `Binary64.text`: the number in positional notation when its first digit stands between the fifth
  decimal place and the sixteenth place before the point, and with an exponent otherwise.
-/

namespace CallIndex.Decimal.Binary64

/-- A decimal `digits · 10 ^ power`, compared with `units · 2 ^ scale`. -/
def compareDecimal (digits : Nat) (power : Int) (units : Nat) (scale : Int) : Ordering :=
  compare (digits * Nat.pow 10 power.toNat * Nat.pow 2 (-scale).toNat)
    (units * Nat.pow 2 scale.toNat * Nat.pow 10 (-power).toNat)

/-- The numbers that round to `x` lie between two points, given here as multiples of
`2 ^ (x.exponent - 2)`. Below a power of two the gap is half as wide. -/
def lowerPoint (x : Binary64) : Nat :=
  if x.mantissa = Nat.pow 2 52 && x.exponent > minExponent then 4 * x.mantissa - 1
  else 4 * x.mantissa - 2

def upperPoint (x : Binary64) : Nat := 4 * x.mantissa + 2

/-- Whether a decimal rounds to `x`. A point in the middle goes to the even mantissa. -/
def rounds (x : Binary64) (digits : Nat) (power : Int) : Bool :=
  let low := compareDecimal digits power x.lowerPoint (x.exponent - 2)
  let high := compareDecimal digits power x.upperPoint (x.exponent - 2)
  if x.mantissa % 2 = 0 then low != .lt && high != .gt else low == .gt && high == .lt

/-- The power of ten of the first digit of a positive number. -/
def leadingPower (x : Binary64) : Int :=
  let k := (floorLog2 x.num x.den) * 30103 / 100000
  if compareDecimal 1 (k + 1) x.mantissa x.exponent != .gt then k + 1 else k

/-- The decimals of one length nearest to `x`, from below and from above: the one that rounds to
`x`, the nearer one if both do. -/
def decimalOfLength? (x : Binary64) (lead : Int) (length : Nat) : Option (Nat × Int) :=
  let power := lead - (length - 1 : Nat)
  let below := x.num * Nat.pow 10 (-power).toNat / (x.den * Nat.pow 10 power.toNat)
  let above := below + 1
  match x.rounds below power, x.rounds above power with
  | true, true =>
    -- Twice the value lies between the sum of both candidates and one of its sides.
    match compareDecimal (below + above) power (2 * x.mantissa) x.exponent with
    | .lt => some (above, power)
    | .gt => some (below, power)
    | .eq => some (if below % 2 = 0 then below else above, power)
  | true, false => some (below, power)
  | false, true => some (above, power)
  | false, false => none

/-- The first length, of `fuel` lengths from `length` on, at which a decimal reads back. -/
def shortestFrom (x : Binary64) (lead : Int) : Nat → Nat → Nat × Int
  | 0, _ => (x.mantissa, x.exponent)
  | fuel + 1, length =>
    match x.decimalOfLength? lead length with
    | some found => found
    | none => shortestFrom x lead fuel (length + 1)

/-- Drop the zeros at the end of a positive number, counting them into the power. -/
def dropZeros : Nat → Nat × Int → Nat × Int
  | 0, d => d
  | fuel + 1, (digits, power) =>
    if digits % 10 = 0 then dropZeros fuel (digits / 10, power + 1) else (digits, power)

/-- The shortest decimal that rounds to a positive number: seventeen digits are always enough. -/
def shortest (x : Binary64) : Nat × Int :=
  dropZeros 20 (shortestFrom x x.leadingPower 17 1)

/-- How a number is laid out: which powers of the first digit are written positionally. -/
structure Layout where
  leastPower : Int
  greatestPower : Int

/-- Positional from the fifth decimal place up to sixteen places before the point. -/
def layout : Layout := ⟨-5, 15⟩

/-- The text of a number. A positional text has a digit after the point; an exponent has a sign. -/
def text (x : Binary64) : String :=
  if x.mantissa = 0 then "0.0"
  else
    let (number, power) := x.shortest
    let digits := (toString number).toList
    let lead := power + (digits.length - 1 : Nat)
    if layout.leastPower ≤ lead && lead ≤ layout.greatestPower then
      if lead < 0 then
        "0." ++ String.ofList (List.replicate (-lead - 1).toNat '0' ++ digits)
      else
        let whole := digits.take (lead.toNat + 1)
        let fraction := digits.drop (lead.toNat + 1)
        String.ofList (whole ++ List.replicate (lead.toNat + 1 - whole.length) '0') ++ "." ++
          (if fraction.isEmpty then "0" else String.ofList fraction)
    else
      String.ofList (digits.take 1) ++
        (if digits.length = 1 then "" else "." ++ String.ofList (digits.drop 1)) ++
        (if lead < 0 then "e-" else "e+") ++ toString lead.natAbs

end CallIndex.Decimal.Binary64
