import PolicyDecision.Binary64

/-!
# Shortest decimal of a binary number

Every binary number stands for an interval of reals that round to it. `shortest` is a decimal
number in that interval with the fewest digits, and the nearest of those to the binary number.

For each count of digits the two decimals of that count next to the number are tried: if any
decimal of that count lies in the interval, so does one of these two.
-/

namespace PolicyDecision.Binary64

/-- The number `digits · 10 ^ exponent`. -/
structure Decimal where
  digits : Nat
  exponent : Int
  deriving DecidableEq

/-- The reals that round to a number, as multiples of `unit / den`: the number itself, and the
two ends, which belong to the interval when `closed`. -/
structure Interval where
  value : Nat
  low : Nat
  high : Nat
  den : Nat
  closed : Bool

/-- The interval of a positive magnitude. The gap below a power of two is half the gap above. -/
def interval (x : Binary64) : Interval :=
  let below := if x.mantissa = Nat.pow 2 52 ∧ x.exponent ≠ -1074 then 1 else 2
  let (unit, den) := scaled 1 1 (x.exponent - 2)
  { value := 4 * x.mantissa * unit
    low := (4 * x.mantissa - below) * unit
    high := (4 * x.mantissa + 2) * unit
    den
    closed := x.mantissa % 2 = 0 }

namespace Interval

/-- `n · 10 ^ k` over `den` as a fraction of natural numbers. -/
def tens (n : Nat) (k : Int) (den : Nat) : Nat × Nat :=
  if 0 ≤ k then (n * Nat.pow 10 k.toNat * den, 1) else (n * den, Nat.pow 10 (-k).toNat)

/-- Whether `n · 10 ^ k` rounds to the number. -/
def contains (i : Interval) (n : Nat) (k : Int) : Bool :=
  let (num, den) := tens n k i.den
  if i.closed then i.low * den ≤ num ∧ num ≤ i.high * den
  else i.low * den < num ∧ num < i.high * den

/-- The exponent of the number's first decimal digit. -/
def leadingExponent (i : Interval) : Int :=
  let guess : Int := (Nat.toDigits 10 i.value).length - (Nat.toDigits 10 i.den).length
  let (num, den) := tens 1 guess i.den
  if num ≤ i.value * den then guess else guess - 1

/-- The nearest decimal with `count` digits that rounds to the number; of two equally near
ones the even. -/
def ofCount? (i : Interval) (count : Nat) : Option Decimal :=
  let k := i.leadingExponent - count + 1
  let (num, den) := tens 1 k i.den
  let below := i.value * den / num
  let twice := 2 * (i.value * den % num)
  match i.contains below k, i.contains (below + 1) k with
  | true, true =>
    if twice < num ∨ (twice = num ∧ below % 2 = 0) then some ⟨below, k⟩ else some ⟨below + 1, k⟩
  | true, false => some ⟨below, k⟩
  | false, true => some ⟨below + 1, k⟩
  | false, false => none

end Interval

/-- All digits of a magnitude: a power of two divides a power of ten. -/
def exact (x : Binary64) : Decimal :=
  if 0 ≤ x.exponent then ⟨x.mantissa * Nat.pow 2 x.exponent.toNat, 0⟩
  else ⟨x.mantissa * Nat.pow 5 (-x.exponent).toNat, x.exponent⟩

/-- The shortest decimal that rounds to a magnitude other than zero. Seventeen digits always
suffice. -/
def shortest (x : Binary64) : Decimal :=
  let i := x.interval
  ((List.range' 1 17).findSome? i.ofCount?).getD x.exact

end PolicyDecision.Binary64
