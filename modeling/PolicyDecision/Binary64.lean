/-!
# Finite binary floating-point numbers

A `Binary64` is a sign and a magnitude `mantissa · 2 ^ exponent` with 53 bits of mantissa.
All arithmetic here is exact on natural numbers and rounds once, to the nearest number and
from a half to the even one, so nothing depends on the machine's own floating point.

`nearest` is that rounding. `ofDecimal` reads a decimal number in two roundings: the digits
are rounded first, and the product or quotient with a rounded power of ten is rounded again.
-/

namespace PolicyDecision

/-- The mantissas and exponents of the format: all 53 bits of the mantissa are in use, unless the
exponent is the least one. -/
def Binary64.IsNormal (mantissa : Nat) (exponent : Int) : Prop :=
  mantissa < Nat.pow 2 53 ∧ -1074 ≤ exponent ∧ exponent ≤ 971 ∧
    (Nat.pow 2 52 ≤ mantissa ∨ exponent = -1074)

instance (mantissa : Nat) (exponent : Int) : Decidable (Binary64.IsNormal mantissa exponent) :=
  inferInstanceAs (Decidable (_ ∧ _))

/-- A finite number `± mantissa · 2 ^ exponent`, which has one such form. -/
structure Binary64 where
  negative : Bool
  mantissa : Nat
  exponent : Int
  normal : Binary64.IsNormal mantissa exponent
  deriving DecidableEq

namespace Binary64

/-- The number of this sign, mantissa and exponent, if the format has it. -/
def ofParts? (negative : Bool) (mantissa : Nat) (exponent : Int) : Option Binary64 :=
  if normal : IsNormal mantissa exponent then some { negative, mantissa, exponent, normal }
  else none

/-- Zero, with its sign. -/
def zero (negative : Bool) : Binary64 := ⟨negative, 0, -1074, by decide⟩

/-- Equality of the numbers: the two zeros are equal, and otherwise so are only numbers with
the same sign and magnitude. -/
def sameValue (x y : Binary64) : Bool :=
  x = y ∨ (x.mantissa = 0 ∧ y.mantissa = 0)

/-- `num / den` rounded to the nearest integer, a half to the even neighbour. -/
def roundHalfEven (num den : Nat) : Nat :=
  let q := num / den
  let twice := 2 * (num % den)
  if twice < den then q
  else if den < twice then q + 1
  else if q % 2 = 0 then q else q + 1

/-- `num / den · 2 ^ shift` as one fraction. -/
def scaled (num den : Nat) (shift : Int) : Nat × Nat :=
  if 0 ≤ shift then (num * Nat.pow 2 shift.toNat, den)
  else (num, den * Nat.pow 2 (-shift).toNat)

/-- The number nearest to `num / den · 2 ^ shift`, if it is not too large. -/
def nearest (negative : Bool) (num den : Nat) (shift : Int) : Option Binary64 :=
  if num = 0 then some (zero negative) else
  let (num, den) := scaled num den shift
  let low : Int := (num.log2 : Int) - (den.log2 : Int) - 53
  let (lowNum, lowDen) := scaled num den (-low)
  let exponent : Int := max (if Nat.pow 2 53 ≤ lowNum / lowDen then low + 1 else low) (-1074)
  let (n, d) := scaled num den (-exponent)
  let m := roundHalfEven n d
  let (m, exponent) := if m = Nat.pow 2 53 then (Nat.pow 2 52, exponent + 1) else (m, exponent)
  ofParts? negative m exponent

/-- The product of the magnitudes, with the sign of `x`. -/
def scaleUp (x factor : Binary64) : Option Binary64 :=
  nearest x.negative (x.mantissa * factor.mantissa) 1 (x.exponent + factor.exponent)

/-- The quotient of the magnitudes, with the sign of `x`. -/
def scaleDown (x divisor : Binary64) : Option Binary64 :=
  nearest x.negative x.mantissa divisor.mantissa (x.exponent - divisor.exponent)

/-- The number nearest to `10 ^ n`, if it is not too large. -/
def powerOfTen (n : Nat) : Option Binary64 :=
  nearest false (Nat.pow 10 n) 1 0

/-- `x / 10 ^ n`, dividing by at most `10 ^ 308` at a time. -/
def dividedByTens (x : Binary64) (n : Nat) : Option Binary64 :=
  if n ≤ 308 then (powerOfTen n).bind x.scaleDown
  else if x.mantissa = 0 then some x
  else ((powerOfTen 308).bind x.scaleDown).bind fun y => dividedByTens y (n - 308)
termination_by n

/-- Read `digits · 10 ^ exponent`; `none` when the number is too large. -/
def ofDecimal (negative : Bool) (digits : Nat) (exponent : Int) : Option Binary64 :=
  (nearest negative digits 1 0).bind fun x =>
    if x.mantissa = 0 then some x
    else if 308 < exponent then none
    else if 0 ≤ exponent then (powerOfTen exponent.toNat).bind x.scaleUp
    else dividedByTens x (-exponent).toNat

end Binary64
end PolicyDecision
