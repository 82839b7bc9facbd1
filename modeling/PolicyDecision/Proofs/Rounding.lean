import Mathlib.Algebra.Order.Field.Power
import Mathlib.Tactic.FieldSimp
import Mathlib.Tactic.Linarith
import Mathlib.Tactic.Positivity
import Mathlib.Tactic.Ring
import PolicyDecision.Binary64.Shortest

/-!
# Decimals tell binary numbers apart

A decimal stands for the binary number that it rounds to, and it rounds to one number only
(`Binary64.RoundsTo.eq`): the intervals of two numbers meet in one point at most, which belongs to
one of them at most. The decimal that a number is written with rounds to that number
(`Binary64.roundsTo_shortest`).

Everything here is about magnitudes other than zero, as rational numbers.
-/

namespace PolicyDecision.Binary64

/-- The number that a decimal stands for. -/
def Decimal.value (d : Decimal) : ℚ :=
  d.digits * 10 ^ d.exponent

/-- A quarter of the gap between a number and the next greater one. -/
def quarter (x : Binary64) : ℚ :=
  2 ^ (x.exponent - 2)

/-- The way down to the midpoint below a number, in quarters of the gap above it. -/
def quartersBelow (x : Binary64) : Nat :=
  if x.mantissa = Nat.pow 2 52 ∧ x.exponent ≠ -1074 then 1 else 2

/-- The midpoint below a number. -/
def lower (x : Binary64) : ℚ :=
  (4 * x.mantissa - x.quartersBelow) * x.quarter

/-- The midpoint above a number. -/
def upper (x : Binary64) : ℚ :=
  (4 * x.mantissa + 2) * x.quarter

/-- The magnitude `v` rounds to that of `x`. The midpoints belong to the number whose mantissa is
even. -/
def RoundsTo (x : Binary64) (v : ℚ) : Prop :=
  if x.mantissa % 2 = 0 then x.lower ≤ v ∧ v ≤ x.upper else x.lower < v ∧ v < x.upper

variable {x y : Binary64} {v : ℚ}

theorem quarter_pos (x : Binary64) : 0 < x.quarter := by
  rw [quarter]
  positivity

theorem quartersBelow_le (x : Binary64) : x.quartersBelow ≤ 2 := by
  rw [quartersBelow]
  split <;> omega

/-! ### One decimal, one number -/

namespace RoundsTo

theorem lower_le (hx : x.RoundsTo v) : x.lower ≤ v := by
  rw [RoundsTo] at hx
  split at hx
  · exact hx.1
  · exact hx.1.le

theorem le_upper (hx : x.RoundsTo v) : v ≤ x.upper := by
  rw [RoundsTo] at hx
  split at hx
  · exact hx.2
  · exact hx.2.le

theorem lower_lt (hx : x.RoundsTo v) (hodd : x.mantissa % 2 ≠ 0) : x.lower < v := by
  rw [RoundsTo, if_neg hodd] at hx
  exact hx.1

theorem lt_upper (hx : x.RoundsTo v) (hodd : x.mantissa % 2 ≠ 0) : v < x.upper := by
  rw [RoundsTo, if_neg hodd] at hx
  exact hx.2

/-- What rounds to both numbers lies above the midpoint below the one and below the midpoint above
the other. -/
theorem lower_le_upper (hx : x.RoundsTo v) (hy : y.RoundsTo v) : y.lower ≤ x.upper :=
  hy.lower_le.trans hx.le_upper

/-- If one of the mantissas is odd, the midpoints are apart. -/
theorem lower_lt_upper (hx : x.RoundsTo v) (hy : y.RoundsTo v)
    (hodd : x.mantissa % 2 ≠ 0 ∨ y.mantissa % 2 ≠ 0) : y.lower < x.upper := by
  rcases hodd with hodd | hodd
  · exact hy.lower_le.trans_lt (hx.lt_upper hodd)
  · exact (hy.lower_lt hodd).trans_le hx.le_upper

/-- What rounds to a number other than zero is positive. -/
theorem pos (hx : x.RoundsTo v) (hmantissa : x.mantissa ≠ 0) : 0 < v := by
  have hbelow : x.quartersBelow < 4 * x.mantissa := by
    have := x.quartersBelow_le
    omega
  have hcast : (x.quartersBelow : ℚ) < 4 * x.mantissa := by exact_mod_cast hbelow
  have hlower : 0 < x.lower := mul_pos (by linarith) x.quarter_pos
  exact hlower.trans_le hx.lower_le

/-- Of two numbers of one exponent, the next to the other shares a midpoint with it, and one of the
two is odd. -/
theorem not_mantissa_lt (hx : x.RoundsTo v) (hy : y.RoundsTo v)
    (hexponent : x.exponent = y.exponent) : ¬x.mantissa < y.mantissa := by
  intro hlt
  have hquarter : y.quarter = x.quarter := by rw [quarter, quarter, hexponent]
  have hbelow := y.quartersBelow_le
  have hle : 4 * y.mantissa ≤ 4 * x.mantissa + 2 + y.quartersBelow := by
    have h := hx.lower_le_upper hy
    rw [lower, upper, hquarter] at h
    have h := le_of_mul_le_mul_right h x.quarter_pos
    exact_mod_cast (by linarith : (4 * y.mantissa : ℚ) ≤ 4 * x.mantissa + 2 + y.quartersBelow)
  have hnext : y.mantissa = x.mantissa + 1 := by omega
  have hlt : 4 * y.mantissa < 4 * x.mantissa + 2 + y.quartersBelow := by
    have h := hx.lower_lt_upper hy (by omega)
    rw [lower, upper, hquarter] at h
    have h := lt_of_mul_lt_mul_right h x.quarter_pos.le
    exact_mod_cast (by linarith : (4 * y.mantissa : ℚ) < 4 * x.mantissa + 2 + y.quartersBelow)
  omega

/-- Of two numbers of different exponents, the interval of the greater begins where that of the
greatest mantissa of the smaller exponent ends, at the earliest; and that mantissa is odd. -/
theorem not_exponent_lt (hx : x.RoundsTo v) (hy : y.RoundsTo v) :
    ¬x.exponent < y.exponent := by
  intro hlt
  have hmantissa : x.mantissa < 9007199254740992 := x.normal.1
  have hquarter : 2 * x.quarter ≤ y.quarter := by
    have hdouble : 2 * x.quarter = 2 ^ (x.exponent - 2 + 1) := by
      rw [quarter, zpow_add_one₀ (by norm_num)]
      ring
    rw [hdouble, quarter]
    exact zpow_le_zpow_right₀ (by norm_num) (by omega)
  -- `y` is not subnormal, since its exponent is not the least one.
  have hbelow : 18014398509481983 + y.quartersBelow ≤ 4 * y.mantissa := by
    have h52 : Nat.pow 2 52 = 4503599627370496 := rfl
    have hleast := x.normal.2.1
    have hnormal := y.normal.2.2.2
    rw [quartersBelow]
    split <;> omega
  have hlower : 36028797018963966 * x.quarter ≤ y.lower := by
    have hcast : (18014398509481983 : ℚ) ≤ 4 * y.mantissa - y.quartersBelow := by
      have h : (18014398509481983 : ℚ) + y.quartersBelow ≤ 4 * y.mantissa := by
        exact_mod_cast hbelow
      linarith
    calc 36028797018963966 * x.quarter = 18014398509481983 * (2 * x.quarter) := by ring
      _ ≤ (4 * y.mantissa - y.quartersBelow) * y.quarter :=
          mul_le_mul hcast hquarter (by linarith [x.quarter_pos]) (by linarith)
  have hodd : x.mantissa % 2 ≠ 0 := by
    have h := hlower.trans (hx.lower_le_upper hy)
    rw [upper] at h
    have h := le_of_mul_le_mul_right h x.quarter_pos
    have h : 36028797018963966 ≤ 4 * x.mantissa + 2 := by exact_mod_cast h
    omega
  have h := hlower.trans_lt (hx.lower_lt_upper hy (.inl hodd))
  rw [upper] at h
  have h := lt_of_mul_lt_mul_right h x.quarter_pos.le
  have h : 36028797018963966 < 4 * x.mantissa + 2 := by exact_mod_cast h
  omega

/-- **A magnitude rounds to one number of a sign only.** -/
theorem eq (hx : x.RoundsTo v) (hy : y.RoundsTo v) (hsign : x.negative = y.negative) : x = y := by
  have hexponent : x.exponent = y.exponent := by
    have h := hx.not_exponent_lt hy
    have h' := hy.not_exponent_lt hx
    omega
  have hmantissa : x.mantissa = y.mantissa := by
    have h := hx.not_mantissa_lt hy hexponent
    have h' := hy.not_mantissa_lt hx hexponent.symm
    omega
  cases x
  cases y
  simp_all

end RoundsTo

/-- There is one zero of either sign. -/
theorem eq_of_zero (hx : x.mantissa = 0) (hy : y.mantissa = 0)
    (hsign : x.negative = y.negative) : x = y := by
  have hexponent : ∀ z : Binary64, z.mantissa = 0 → z.exponent = -1074 := by
    intro z hz
    have h52 : Nat.pow 2 52 = 4503599627370496 := rfl
    have := z.normal.2.2.2
    omega
  have hexponent : x.exponent = y.exponent := (hexponent x hx).trans (hexponent y hy).symm
  cases x
  cases y
  simp_all

/-! ### The decimal of a number rounds to it -/

/-- A power of two as a fraction. -/
theorem scaled_one (shift : Int) :
    ((scaled 1 1 shift).1 : ℚ) = 2 ^ shift * (scaled 1 1 shift).2 ∧ 0 < (scaled 1 1 shift).2 := by
  rw [scaled]
  split
  · next h =>
    refine ⟨?_, Nat.one_pos⟩
    obtain ⟨n, rfl⟩ := Int.eq_ofNat_of_zero_le h
    simp
  · next h =>
    obtain ⟨n, hn⟩ := Int.eq_ofNat_of_zero_le (a := -shift) (by omega)
    obtain rfl : shift = -n := by omega
    refine ⟨?_, by simp⟩
    simp

/-- A decimal as a fraction. -/
theorem tens_value (n : Nat) (k : Int) (den : Nat) :
    ((Interval.tens n k den).1 : ℚ) = (Decimal.value ⟨n, k⟩) * den * (Interval.tens n k den).2 ∧
      0 < (Interval.tens n k den).2 := by
  rw [Interval.tens, Decimal.value]
  split
  · next h =>
    obtain ⟨m, rfl⟩ := Int.eq_ofNat_of_zero_le h
    simp
  · next h =>
    obtain ⟨m, hm⟩ := Int.eq_ofNat_of_zero_le (a := -k) (by omega)
    obtain rfl : k = -m := by omega
    refine ⟨?_, by simp⟩
    simp only [Int.neg_neg, Int.toNat_natCast, Nat.pow_eq, Nat.cast_mul, Nat.cast_pow,
      Nat.cast_ofNat, zpow_neg, zpow_natCast]
    field_simp

section Interval

variable {a unit den num den' : Nat} {q : ℚ}

/-- Comparing fractions of one denominator is comparing what they stand for. -/
theorem fraction_le (hunit : (unit : ℚ) = q * den) (hnum : (num : ℚ) = v * den * den')
    (hden : 0 < den) (hden' : 0 < den') : a * unit * den' ≤ num ↔ a * q ≤ v := by
  have hpos : (0 : ℚ) < den * den' := by positivity
  rw [← Nat.cast_le (α := ℚ), Nat.cast_mul, Nat.cast_mul, hunit, hnum,
    show (a : ℚ) * (q * den) * den' = a * q * (den * den') by ring, mul_assoc v]
  exact mul_le_mul_iff_left₀ hpos

theorem le_fraction (hunit : (unit : ℚ) = q * den) (hnum : (num : ℚ) = v * den * den')
    (hden : 0 < den) (hden' : 0 < den') : num ≤ a * unit * den' ↔ v ≤ a * q := by
  have hpos : (0 : ℚ) < den * den' := by positivity
  rw [← Nat.cast_le (α := ℚ), Nat.cast_mul, Nat.cast_mul, hunit, hnum,
    show (a : ℚ) * (q * den) * den' = a * q * (den * den') by ring, mul_assoc v]
  exact mul_le_mul_iff_left₀ hpos

end Interval

/-- What the interval of a number contains rounds to the number. -/
theorem contains_interval_iff (hx : x.mantissa ≠ 0) (n : Nat) (k : Int) :
    x.interval.contains n k = true ↔ x.RoundsTo (Decimal.value ⟨n, k⟩) := by
  obtain ⟨hunit, hden⟩ := scaled_one (x.exponent - 2)
  obtain ⟨hnum, hden'⟩ := tens_value n k (scaled 1 1 (x.exponent - 2)).2
  have hlow : ((4 * x.mantissa - x.quartersBelow : Nat) : ℚ) =
      4 * x.mantissa - x.quartersBelow := by
    have := x.quartersBelow_le
    rw [Nat.cast_sub (by omega)]
    push_cast
    ring
  have hhigh : ((4 * x.mantissa + 2 : Nat) : ℚ) = 4 * x.mantissa + 2 := by push_cast; ring
  rw [RoundsTo, lower, upper, ← hlow, ← hhigh, quarter,
    ← fraction_le hunit hnum hden hden', ← le_fraction hunit hnum hden hden',
    ← not_le, ← not_le, ← fraction_le hunit hnum hden hden', ← le_fraction hunit hnum hden hden',
    not_le, not_le, Interval.contains]
  by_cases heven : x.mantissa % 2 = 0
  · simp [interval, heven, quartersBelow]
  · simp [interval, heven, quartersBelow]

theorem contains_ofCount? {i : Interval} {count : Nat} {d : Decimal}
    (h : i.ofCount? count = some d) : i.contains d.digits d.exponent = true := by
  simp only [Interval.ofCount?] at h
  split at h
  · next hbelow habove =>
    split at h
    · cases h
      exact hbelow
    · cases h
      exact habove
  · next hbelow _ =>
    cases h
    exact hbelow
  · next _ habove =>
    cases h
    exact habove
  · cases h

/-- All digits of a number stand for the number itself. -/
theorem value_exact (x : Binary64) : x.exact.value = 4 * x.mantissa * x.quarter := by
  have hquarter : 4 * x.quarter = 2 ^ x.exponent := by
    rw [quarter, zpow_sub₀ (by norm_num)]
    norm_num
    ring
  rw [mul_right_comm, hquarter, exact, Decimal.value]
  split
  · next h =>
    obtain ⟨n, hn⟩ := Int.eq_ofNat_of_zero_le h
    rw [hn]
    simp
    ring
  · next h =>
    obtain ⟨n, hn⟩ := Int.eq_ofNat_of_zero_le (a := -x.exponent) (by omega)
    obtain hexponent : x.exponent = -n := by omega
    rw [hexponent]
    simp only [Int.neg_neg, Int.toNat_natCast, Nat.pow_eq, Nat.cast_mul, Nat.cast_pow,
      Nat.cast_ofNat, zpow_neg, zpow_natCast]
    rw [show (10 : ℚ) = 2 * 5 by norm_num, mul_pow]
    field_simp

/-- A number rounds to itself. -/
theorem roundsTo_exact (x : Binary64) : x.RoundsTo x.exact.value := by
  have hquarter := x.quarter_pos
  have hbelow : (0 : ℚ) < x.quartersBelow := by
    rw [quartersBelow]
    split <;> norm_num
  have hlower : x.lower < x.exact.value := by
    rw [value_exact, lower]
    nlinarith
  have hupper : x.exact.value < x.upper := by
    rw [value_exact, upper]
    nlinarith
  rw [RoundsTo]
  split
  · exact ⟨hlower.le, hupper.le⟩
  · exact ⟨hlower, hupper⟩

/-- **The decimal of a number rounds to it.** -/
theorem roundsTo_shortest (hx : x.mantissa ≠ 0) : x.RoundsTo x.shortest.value := by
  rw [shortest]
  cases hfind : (List.range' 1 17).findSome? x.interval.ofCount? with
  | none => exact roundsTo_exact x
  | some d =>
    obtain ⟨count, -, hcount⟩ := List.exists_of_findSome?_eq_some hfind
    exact (contains_interval_iff hx d.digits d.exponent).1 (contains_ofCount? hcount)

end PolicyDecision.Binary64
