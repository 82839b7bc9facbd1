import PolicyDecision.Json

/-!
# Numerals

The number that a written numeral stands for. A numeral without fraction and exponent is an
integer if 64 bits can hold it, signed or unsigned; every other numeral, and the integer `-0`,
is a floating-point number.

A floating-point number is read from at most as many leading digits as fit an unsigned 64-bit
integer. Integral digits after those still count for the magnitude, fractional ones do not.
-/

namespace PolicyDecision

/-- A numeral as written, digit by digit. -/
structure Numeral where
  negative : Bool
  whole : List Nat
  fraction : List Nat
  /-- The exponent's sign and digits, if one is written. -/
  exponent : Option (Bool × List Nat)
  /-- Whether a point or an exponent is written. -/
  fractional : Bool

namespace Numeral

/-- Append digits to a number as long as the result fits 64 bits; the digits left over. -/
def absorb (n : Nat) : List Nat → Nat × List Nat
  | [] => (n, [])
  | d :: ds => if 10 * n + d < Nat.pow 2 64 then absorb (10 * n + d) ds else (n, d :: ds)

/-- The number that digits spell. -/
def ofDigits (ds : List Nat) : Nat :=
  ds.foldl (fun n d => 10 * n + d) 0

/-- The number that a numeral stands for, unless it is too large. -/
def toNumber? (n : Numeral) : Option Number :=
  let (significand, dropped) := absorb 0 n.whole
  if n.fractional then
    let (significand, ignored) := absorb significand n.fraction
    let point : Int := dropped.length - (n.fraction.length - ignored.length : Nat)
    let exponent : Int := match n.exponent with
      | none => point
      | some (false, ds) => point + ofDigits ds
      | some (true, ds) => point - ofDigits ds
    (Binary64.ofDecimal n.negative significand exponent).map .float
  else if dropped ≠ [] then
    (Binary64.ofDecimal n.negative significand dropped.length).map .float
  else if !n.negative then some (.int significand)
  else if 0 < significand ∧ significand ≤ Nat.pow 2 63 then some (.int (-significand))
  else (Binary64.ofDecimal true significand 0).map .float

end Numeral
end PolicyDecision
