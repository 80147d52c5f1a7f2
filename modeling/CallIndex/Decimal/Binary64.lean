/-!
# Double precision numbers

A finite number of 64 bits is `mantissa · 2 ^ exponent`. Arithmetic is exact on fractions of natural
numbers and then rounded once.

* `Binary64.ofRatio`: the nearest number to a fraction, a tie going to the even mantissa. There is
  none beyond the largest finite number.
* `Binary64.mul`, `Binary64.div`: product and quotient, rounded.
* `Binary64.ofScaled`: a natural number times a power of ten, rounded step by step.
-/

namespace CallIndex.Decimal

/-- A finite number, zero or positive: `mantissa · 2 ^ exponent`. -/
structure Binary64 where
  mantissa : Nat
  exponent : Int
  deriving DecidableEq, Repr

namespace Binary64

/-- The least exponent of a number. -/
def minExponent : Int := -1074

/-- The greatest exponent of a number. -/
def maxExponent : Int := 971

def zero : Binary64 := ⟨0, minExponent⟩

/-- The nearest natural number to a fraction; a tie goes to the even one. -/
def roundDiv (num den : Nat) : Nat :=
  let q := num / den
  let r := num % den
  if 2 * r < den then q else if 2 * r = den then q + q % 2 else q + 1

/-- The greatest `k` with `2 ^ k ≤ num / den`, for a positive fraction. -/
def floorLog2 (num den : Nat) : Int :=
  let k : Int := (Nat.log2 num : Int) - Nat.log2 den
  if den * Nat.pow 2 k.toNat ≤ num * Nat.pow 2 (-k).toNat then k else k - 1

/-- The nearest number to a fraction, or none if it is too large. -/
def ofRatio (num den : Nat) : Option Binary64 :=
  if num = 0 then some zero
  else
    let e := max (floorLog2 num den - 52) minExponent
    let m := roundDiv (num * Nat.pow 2 (-e).toNat) (den * Nat.pow 2 e.toNat)
    let x : Binary64 := if m = Nat.pow 2 53 then ⟨Nat.pow 2 52, e + 1⟩ else ⟨m, e⟩
    if x.exponent ≤ maxExponent then some x else none

/-- The value as a fraction: what stands above the line. -/
def num (x : Binary64) : Nat := x.mantissa * Nat.pow 2 x.exponent.toNat

/-- The value as a fraction: what stands below the line. -/
def den (x : Binary64) : Nat := Nat.pow 2 (-x.exponent).toNat

/-- The rounded product. -/
def mul (x y : Binary64) : Option Binary64 :=
  ofRatio (x.num * y.num) (x.den * y.den)

/-- The rounded quotient. -/
def div (x y : Binary64) : Option Binary64 :=
  ofRatio (x.num * y.den) (x.den * y.num)

/-- The nearest number to a power of ten. -/
def powTen (k : Nat) : Option Binary64 := ofRatio (Nat.pow 10 k) 1

/-- The greatest power of ten that is a finite number. -/
def maxPower : Nat := 308

/-- Divide by the greatest power of ten, `steps` times, unless the number vanishes before. -/
def divPowers : Nat → Binary64 → Option Binary64
  | 0, x => some x
  | steps + 1, x =>
    if x.mantissa = 0 then some x
    else do
      let p ← powTen maxPower
      let x ← x.div p
      divPowers steps x

/-- `significand · 10 ^ exponent`, rounded after each step: the significand first, then one
product or quotient by a power of ten. An exponent below the least power is met by dividing by it
more than once. There is no answer beyond the largest finite number. -/
def ofScaled (significand : Nat) (exponent : Int) : Option Binary64 := do
  let x ← ofRatio significand 1
  if x.mantissa = 0 then some x
  else if 0 ≤ exponent then
    if exponent.toNat ≤ maxPower then do
      let p ← powTen exponent.toNat
      x.mul p
    else none
  else
    let k := (-exponent).toNat
    if k ≤ maxPower then do
      let p ← powTen k
      x.div p
    else do
      let steps := (k - 1) / maxPower
      let x ← divPowers steps x
      if x.mantissa = 0 then some x
      else
        let p ← powTen (k - steps * maxPower)
        x.div p

end Binary64

end CallIndex.Decimal
