import Mathlib.Data.List.TakeWhile
import PolicyDecision.Json.Printer
import PolicyDecision.Proofs.Rounding

/-!
# The text of a number tells the number

The text of a floating-point number is read back as a sign and a rational number
(`Number.magnitudeOf`), whichever way it is laid out. What is read rounds to the number that was
written, so two numbers of one text are the same (`Number.text_injective`). Integers are told from
floating-point numbers by having neither a point nor an exponent.
-/

namespace PolicyDecision.Number

/-! ### Reading digits -/

/-- Digits with zeros behind them. -/
theorem ofDigitChars_append_zeros (ds : List Char) (n : Nat) :
    Nat.ofDigitChars 10 (ds ++ List.replicate n '0') 0 = 10 ^ n * Nat.ofDigitChars 10 ds 0 := by
  rw [Nat.ofDigitChars_append, Nat.ofDigitChars_replicate_zero]

/-- Digits with zeros in front of them. -/
theorem ofDigitChars_zeros_append (ds : List Char) (n : Nat) :
    Nat.ofDigitChars 10 (List.replicate n '0' ++ ds) 0 = Nat.ofDigitChars 10 ds 0 := by
  rw [Nat.ofDigitChars_append, Nat.ofDigitChars_replicate_zero, Nat.mul_zero]

/-- The digits of a number are its significant ones and zeros behind them. -/
theorem toDigits_eq_significant (n : Nat) :
    ∃ zeros, Nat.toDigits 10 n = significant n ++ List.replicate zeros '0' := by
  refine ⟨((Nat.toDigits 10 n).reverse.takeWhile (· == '0')).length, ?_⟩
  have hzeros : (Nat.toDigits 10 n).reverse.takeWhile (· == '0') =
      List.replicate ((Nat.toDigits 10 n).reverse.takeWhile (· == '0')).length '0' := by
    rw [List.eq_replicate_iff]
    refine ⟨rfl, fun c hc => ?_⟩
    simpa using List.mem_takeWhile_imp hc
  rw [significant, ← List.reverse_inj, List.reverse_append, List.reverse_reverse,
    List.reverse_replicate, ← hzeros, List.takeWhile_append_dropWhile]

theorem isDigit_of_mem_toDigits {n : Nat} {c : Char} (hc : c ∈ Nat.toDigits 10 n) :
    c.isDigit = true :=
  Nat.isDigit_of_mem_toDigits (by decide) (by decide) hc

theorem isDigit_of_mem_significant {n : Nat} {c : Char} (h : c ∈ significant n) :
    c.isDigit = true := by
  obtain ⟨zeros, hdigits⟩ := toDigits_eq_significant n
  refine isDigit_of_mem_toDigits (n := n) ?_
  rw [hdigits]
  exact List.mem_append_left _ h

/-! ### Reading a magnitude -/

/-- The power of ten that stands at the end of a text. -/
def powerOf : List Char → Int
  | 'e' :: '-' :: ds => -(Nat.ofDigitChars 10 ds 0 : Nat)
  | 'e' :: _ :: ds => (Nat.ofDigitChars 10 ds 0 : Nat)
  | _ => 0

/-- The magnitude that a text stands for: digits, perhaps a point among them, perhaps a power of
ten. -/
def magnitudeOf (cs : List Char) : ℚ :=
  let mantissa := cs.takeWhile (· ≠ 'e')
  let whole := mantissa.takeWhile (· ≠ '.')
  let fraction := (mantissa.dropWhile (· ≠ '.')).tail
  Nat.ofDigitChars 10 (whole ++ fraction) 0 *
    10 ^ (powerOf (cs.dropWhile (· ≠ 'e')) - fraction.length)

theorem ne_of_isDigit {c d : Char} (h : c.isDigit = true) (hd : d.isDigit = false) : c ≠ d := by
  rintro rfl
  rw [h] at hd
  cases hd

theorem ne_of_digits {cs : List Char} {d : Char} (h : ∀ c ∈ cs, c.isDigit = true)
    (hd : d.isDigit = false) : ∀ c ∈ cs, decide (c ≠ d) = true :=
  fun c hc => decide_eq_true (ne_of_isDigit (h c hc) hd)

variable {whole fraction rest : List Char}

/-- The mantissa ends where a power of ten begins. -/
theorem split_power {cs : List Char} (hcs : ∀ c ∈ cs, decide (c ≠ 'e') = true)
    (hrest : rest = [] ∨ ∃ power, rest = 'e' :: power) :
    (cs ++ rest).takeWhile (· ≠ 'e') = cs ∧ (cs ++ rest).dropWhile (· ≠ 'e') = rest := by
  rw [List.takeWhile_append_of_pos hcs, List.dropWhile_append_of_pos hcs]
  rcases hrest with rfl | ⟨power, rfl⟩ <;> simp

/-- Digits on both sides of a point, and what follows the digits. -/
theorem magnitudeOf_point (hwhole : ∀ c ∈ whole, c.isDigit = true)
    (hfraction : ∀ c ∈ fraction, c.isDigit = true) (hrest : rest = [] ∨ ∃ cs, rest = 'e' :: cs) :
    magnitudeOf (whole ++ '.' :: fraction ++ rest) =
      Nat.ofDigitChars 10 (whole ++ fraction) 0 * 10 ^ (powerOf rest - fraction.length) := by
  have hmantissa : ∀ c ∈ whole ++ '.' :: fraction, decide (c ≠ 'e') = true :=
    List.forall_mem_append.2 ⟨ne_of_digits hwhole rfl,
      List.forall_mem_cons.2 ⟨rfl, ne_of_digits hfraction rfl⟩⟩
  have hpoint := ne_of_digits hwhole (d := '.') rfl
  obtain ⟨htake, hdrop⟩ := split_power hmantissa hrest
  rw [magnitudeOf, htake, hdrop, List.takeWhile_append_of_pos hpoint,
    List.dropWhile_append_of_pos hpoint]
  simp

/-- Digits without a point, and what follows them. -/
theorem magnitudeOf_whole (hwhole : ∀ c ∈ whole, c.isDigit = true)
    (hrest : rest = [] ∨ ∃ cs, rest = 'e' :: cs) :
    magnitudeOf (whole ++ rest) = Nat.ofDigitChars 10 whole 0 * 10 ^ powerOf rest := by
  have hpoint := ne_of_digits hwhole (d := '.') rfl
  obtain ⟨htake, hdrop⟩ := split_power (ne_of_digits hwhole rfl) hrest
  rw [magnitudeOf, htake, hdrop, List.takeWhile_eq_self_iff.2 hpoint,
    List.dropWhile_eq_nil_iff.2 hpoint]
  simp

/-- A power of ten with its sign. -/
theorem powerOf_sign (exponent : Int) :
    powerOf ('e' :: (if 0 ≤ exponent then '+' else '-') :: Nat.toDigits 10 exponent.natAbs) =
      exponent := by
  split
  · rw [powerOf, Nat.ofDigitChars_ten_toDigits]
    · omega
    · intro h
      cases h
  · rw [powerOf, Nat.ofDigitChars_ten_toDigits]
    omega

section Layout

variable {ds : List Char} (hds : ∀ c ∈ ds, c.isDigit = true)
include hds

/-- With the point among the digits or behind them, filled up with zeros. -/
theorem magnitudeOf_positional (n : Nat) :
    magnitudeOf (ds.take (n + 1) ++ List.replicate (n + 1 - ds.length) '0' ++
        '.' :: (if (ds.drop (n + 1)).isEmpty then ['0'] else ds.drop (n + 1))) =
      Nat.ofDigitChars 10 ds 0 * 10 ^ ((n : Int) - ds.length + 1) := by
  have hwhole : ∀ c ∈ ds.take (n + 1) ++ List.replicate (n + 1 - ds.length) '0',
      c.isDigit = true := by
    intro c hc
    rcases List.mem_append.1 hc with hc | hc
    · exact hds c (List.mem_of_mem_take hc)
    · rw [List.eq_of_mem_replicate hc]
      rfl
  -- Either digits are left behind the point, or zeros fill the space up to it.
  rcases Nat.lt_or_ge (n + 1) ds.length with hlong | hshort
  · have hfraction : (ds.drop (n + 1)).isEmpty = false := by
      rw [List.isEmpty_eq_false_iff, ← List.length_pos_iff, List.length_drop]
      omega
    have hread := @magnitudeOf_point _ (ds.drop (n + 1)) [] hwhole
      (fun c hc => hds c (List.mem_of_mem_drop hc)) (.inl rfl)
    have hnone : n + 1 - ds.length = 0 := by omega
    rw [List.append_nil] at hread
    rw [hfraction, if_neg Bool.false_ne_true, hread, hnone, List.replicate_zero, List.append_nil,
      List.take_append_drop, List.length_drop, powerOf]
    · congr 2
      omega
    · simp
    · simp
  · have hread := @magnitudeOf_point _ ['0'] [] hwhole
      (fun c hc => by rw [List.mem_singleton.1 hc]; rfl) (.inl rfl)
    rw [List.append_nil] at hread
    have hzeros : List.replicate (n + 1 - ds.length) '0' ++ ['0'] =
        List.replicate (n + 2 - ds.length) '0' := by
      rw [show n + 2 - ds.length = n + 1 - ds.length + 1 by omega, List.replicate_succ']
    have hpower : (n : Int) - ds.length + 1 = (n + 2 - ds.length : Nat) + (0 - 1) := by omega
    rw [List.drop_of_length_le hshort, List.isEmpty_nil, if_pos rfl, hread,
      List.take_of_length_le hshort, List.append_assoc, hzeros, ofDigitChars_append_zeros, hpower,
      zpow_add₀ (by norm_num), powerOf, zpow_natCast, List.length_singleton]
    · push_cast
      ring
    · simp
    · simp

/-- Behind a point and zeros. -/
theorem magnitudeOf_fraction {exponent : Int} (hexponent : exponent < 0) :
    magnitudeOf ('0' :: '.' :: List.replicate ((-exponent).toNat - 1) '0' ++ ds) =
      Nat.ofDigitChars 10 ds 0 * 10 ^ (exponent - ds.length + 1) := by
  have hfraction : ∀ c ∈ List.replicate ((-exponent).toNat - 1) '0' ++ ds,
      c.isDigit = true := by
    intro c hc
    rcases List.mem_append.1 hc with hc | hc
    · rw [List.eq_of_mem_replicate hc]
      rfl
    · exact hds c hc
  have hread := @magnitudeOf_point ['0'] _ []
    (fun c hc => by rw [List.mem_singleton.1 hc]; rfl) hfraction (.inl rfl)
  rw [List.append_nil] at hread
  have hdigits : Nat.ofDigitChars 10 (['0'] ++ (List.replicate ((-exponent).toNat - 1) '0' ++ ds))
      0 = Nat.ofDigitChars 10 ds 0 := by
    rw [List.singleton_append, Nat.ofDigitChars_cons]
    exact ofDigitChars_zeros_append ds _
  show magnitudeOf (['0'] ++ '.' :: (List.replicate ((-exponent).toNat - 1) '0' ++ ds)) = _
  rw [hread, hdigits, List.length_append, List.length_replicate, powerOf]
  · congr 2
    omega
  · simp
  · simp

end Layout

/-- With the power of ten written out. -/
theorem magnitudeOf_scientific (ds : List Char) (exponent : Int) :
    (∀ c ∈ ds, c.isDigit = true) →
    magnitudeOf ((match ds with
        | d :: fraction@(_ :: _) => d :: '.' :: fraction
        | _ => ds) ++
        'e' :: (if 0 ≤ exponent then '+' else '-') :: Nat.toDigits 10 exponent.natAbs) =
      Nat.ofDigitChars 10 ds 0 * 10 ^ (exponent - ds.length + 1) := by
  intro hds
  have hrest := powerOf_sign exponent
  generalize (if 0 ≤ exponent then '+' else '-') :: Nat.toDigits 10 exponent.natAbs = power at *
  cases ds with
  | nil =>
    have hread := @magnitudeOf_whole [] _ hds (.inr ⟨power, rfl⟩)
    rw [hread]
    simp
  | cons d fraction =>
    cases fraction with
    | nil =>
      have hread := magnitudeOf_whole hds (.inr ⟨power, rfl⟩)
      rw [hread, hrest]
      simp
    | cons d' fraction =>
      obtain ⟨hd, hfraction⟩ := List.forall_mem_cons.1 hds
      have hread := @magnitudeOf_point [d] _ ('e' :: power)
        (fun c hc => by rw [List.mem_singleton.1 hc]; exact hd) hfraction (.inr ⟨power, rfl⟩)
      show magnitudeOf ([d] ++ '.' :: (d' :: fraction) ++ 'e' :: power) = _
      rw [hread, hrest, List.singleton_append]
      congr 2
      simp only [List.length_cons]
      omega

/-- **However digits are laid out, they are read as what they stand for.** -/
theorem magnitudeOf_write (l : Layout) {ds : List Char} (hds : ∀ c ∈ ds, c.isDigit = true)
    (exponent : Int) :
    magnitudeOf (l.write ds exponent) =
      Nat.ofDigitChars 10 ds 0 * 10 ^ (exponent - ds.length + 1) := by
  unfold Layout.write
  split
  · split
    · next hexponent =>
      obtain ⟨n, rfl⟩ := Int.eq_ofNat_of_zero_le hexponent
      exact magnitudeOf_positional hds n
    · next hexponent => exact magnitudeOf_fraction hds (by omega)
  · exact magnitudeOf_scientific ds exponent hds

/-! ### Floating-point numbers -/

/-- The text of a floating-point number without its sign. -/
def magnitudeText (x : Binary64) : List Char :=
  if x.mantissa = 0 then ['0', '.', '0']
  else layout.write (significant x.shortest.digits)
    (x.shortest.exponent + (Nat.toDigits 10 x.shortest.digits).length - 1)

theorem floatText_eq (x : Binary64) :
    floatText x = (if x.negative then ['-'] else []) ++ magnitudeText x := by
  simp only [floatText, magnitudeText]
  split <;> rfl

/-- What is read of a text is what was written. -/
theorem magnitudeOf_magnitudeText (x : Binary64) :
    magnitudeOf (magnitudeText x) = if x.mantissa = 0 then 0 else x.shortest.value := by
  rw [magnitudeText]
  split
  · have hread := @magnitudeOf_positional ['0'] (fun c hc => by
      rw [List.mem_singleton.1 hc]; rfl) 0
    have hzero : Nat.ofDigitChars 10 ['0'] 0 = 0 := rfl
    rw [hzero, Nat.cast_zero, zero_mul] at hread
    exact hread
  · obtain ⟨zeros, hdigits⟩ := toDigits_eq_significant x.shortest.digits
    have hvalue : x.shortest.digits =
        10 ^ zeros * Nat.ofDigitChars 10 (significant x.shortest.digits) 0 := by
      rw [← ofDigitChars_append_zeros, ← hdigits, Nat.ofDigitChars_ten_toDigits]
    have hpower : x.shortest.exponent + (Nat.toDigits 10 x.shortest.digits).length - 1 -
        (significant x.shortest.digits).length + 1 = zeros + x.shortest.exponent := by
      rw [hdigits, List.length_append, List.length_replicate]
      omega
    rw [magnitudeOf_write layout (fun c hc => isDigit_of_mem_significant hc), hpower,
      Binary64.Decimal.value, zpow_add₀ (by norm_num), zpow_natCast]
    conv_rhs => rw [hvalue]
    push_cast
    ring

/-! ### The characters of a text -/

/-- The characters that the text of a number is made of. -/
def IsNumeral (c : Char) : Prop :=
  c.isDigit = true ∨ c ∈ ['-', '+', '.', 'e']

section Layout

variable (l : Layout) {ds : List Char} (exponent : Int)

theorem point_or_power_mem_write : '.' ∈ l.write ds exponent ∨ 'e' ∈ l.write ds exponent := by
  unfold Layout.write
  split
  · split
    · exact .inl (by simp)
    · exact .inl (by simp)
  · exact .inr (by simp)

variable (hds : ∀ c ∈ ds, c.isDigit = true)
include hds

theorem isNumeral_of_mem_write {c : Char} (hc : c ∈ l.write ds exponent) : IsNumeral c := by
  have hzero : Char.isDigit '0' = true := rfl
  unfold Layout.write at hc
  rw [IsNumeral]
  split at hc
  · split at hc
    · simp only [List.mem_append, List.mem_cons, List.mem_replicate] at hc
      rcases hc with (hc | ⟨-, rfl⟩) | rfl | hc
      · exact .inl (hds c (List.mem_of_mem_take hc))
      · exact .inl hzero
      · simp
      · split at hc
        · rw [List.mem_singleton.1 hc]
          exact .inl hzero
        · exact .inl (hds c (List.mem_of_mem_drop hc))
    · simp only [List.mem_append, List.mem_cons, List.mem_replicate] at hc
      rcases hc with (rfl | rfl | ⟨-, rfl⟩) | hc
      · exact .inl hzero
      · simp
      · exact .inl hzero
      · exact .inl (hds c hc)
  · rcases List.mem_append.1 hc with hc | hc
    · split at hc
      · rcases List.mem_cons.1 hc with rfl | hc
        · exact .inl (hds _ List.mem_cons_self)
        · rcases List.mem_cons.1 hc with rfl | hc
          · simp
          · exact .inl (hds c (List.mem_cons_of_mem _ hc))
      · exact .inl (hds c hc)
    · rcases List.mem_cons.1 hc with rfl | hc
      · simp
      · rcases List.mem_cons.1 hc with rfl | hc
        · split <;> simp
        · exact .inl (isDigit_of_mem_toDigits hc)

/-- Only the text of a negative number begins with its sign. -/
theorem head?_write : (l.write ds exponent).head? ≠ some '-' := by
  have hne : ∀ d ∈ ds, d ≠ '-' := fun d hd => ne_of_isDigit (hds d hd) rfl
  unfold Layout.write
  split
  · split
    · cases ds with
      | nil => simp [List.replicate_succ]
      | cons d ds => simpa using hne d List.mem_cons_self
    · simp
  · split
    · next d d' ds => simpa using hne d List.mem_cons_self
    · cases ds with
      | nil => simp
      | cons d ds => simpa using hne d List.mem_cons_self

end Layout

/-! ### Telling numbers by their texts -/

theorem isNumeral_of_mem_magnitudeText {x : Binary64} {c : Char} (hc : c ∈ magnitudeText x) :
    IsNumeral c := by
  rw [magnitudeText] at hc
  split at hc
  · have hzero : ∀ d ∈ ['0', '.', '0'], d.isDigit = true ∨ d = '.' :=
      List.forall_mem_cons.2 ⟨.inl rfl, List.forall_mem_cons.2 ⟨.inr rfl,
        List.forall_mem_singleton.2 (.inl rfl)⟩⟩
    rw [IsNumeral]
    exact (hzero c hc).imp_right fun h => by simp [h]
  · exact isNumeral_of_mem_write layout _ (fun c hc => isDigit_of_mem_significant hc) hc

theorem point_or_power_mem_magnitudeText (x : Binary64) :
    '.' ∈ magnitudeText x ∨ 'e' ∈ magnitudeText x := by
  rw [magnitudeText]
  split
  · simp
  · exact point_or_power_mem_write layout _

theorem head?_magnitudeText (x : Binary64) : (magnitudeText x).head? ≠ some '-' := by
  rw [magnitudeText]
  split
  · simp
  · exact head?_write layout _ fun c hc => isDigit_of_mem_significant hc

/-- A sign is told from what follows it. -/
theorem sign_injective {negative negative' : Bool} {cs ds : List Char} (hcs : cs.head? ≠ some '-')
    (hds : ds.head? ≠ some '-')
    (h : (if negative then ['-'] else []) ++ cs = (if negative' then ['-'] else []) ++ ds) :
    negative = negative' ∧ cs = ds := by
  cases negative <;> cases negative' <;> simp at h ⊢
  · exact h
  · simp [h] at hcs
  · simp [← h] at hds
  · exact h

/-- **The text of a floating-point number tells the number.** -/
theorem floatText_injective {x y : Binary64} (h : floatText x = floatText y) : x = y := by
  rw [floatText_eq, floatText_eq] at h
  obtain ⟨hsign, htext⟩ := sign_injective (head?_magnitudeText x) (head?_magnitudeText y) h
  have hvalue := magnitudeOf_magnitudeText x
  rw [htext, magnitudeOf_magnitudeText y] at hvalue
  by_cases hx : x.mantissa = 0
  · by_cases hy : y.mantissa = 0
    · exact Binary64.eq_of_zero hx hy hsign
    · rw [if_pos hx, if_neg hy] at hvalue
      exact absurd hvalue ((Binary64.roundsTo_shortest hy).pos hy).ne'
  · by_cases hy : y.mantissa = 0
    · rw [if_neg hx, if_pos hy] at hvalue
      exact absurd hvalue ((Binary64.roundsTo_shortest hx).pos hx).ne
    · rw [if_neg hx, if_neg hy] at hvalue
      have hrounds := Binary64.roundsTo_shortest hy
      rw [hvalue] at hrounds
      exact (Binary64.roundsTo_shortest hx).eq hrounds hsign

theorem toList_text_float (x : Binary64) : (Number.float x).text.toList = floatText x :=
  String.toList_ofList

/-- The text of an integer: a sign and digits. -/
theorem toList_text_int (n : Int) :
    (Number.int n).text.toList =
      (if decide (n < 0) then ['-'] else []) ++ Nat.toDigits 10 n.natAbs := by
  show n.repr.toList = _
  rw [Int.repr_eq_if]
  by_cases h : 0 ≤ n
  · rw [if_pos h, Nat.repr_eq_ofList_toDigits, String.toList_ofList,
      show n.toNat = n.natAbs by omega]
    simp [h]
  · rw [if_neg h, Nat.repr_eq_ofList_toDigits, String.toList_append, String.toList_ofList,
      show (-n).toNat = n.natAbs by omega]
    have hneg : n < 0 := by omega
    simp [hneg]

theorem head?_toDigits (n : Nat) : (Nat.toDigits 10 n).head? ≠ some '-' := by
  intro h
  exact ne_of_isDigit (isDigit_of_mem_toDigits (List.mem_of_mem_head? h)) rfl rfl

/-- **The text of an integer tells the integer.** -/
theorem intText_injective {m n : Int} (h : (Number.int m).text = (Number.int n).text) : m = n := by
  have h := congrArg String.toList h
  rw [toList_text_int, toList_text_int] at h
  obtain ⟨hsign, hdigits⟩ := sign_injective (head?_toDigits _) (head?_toDigits _) h
  have habs := congrArg (Nat.ofDigitChars 10 · 0) hdigits
  simp only [Nat.ofDigitChars_ten_toDigits] at habs
  rw [decide_eq_decide] at hsign
  omega

/-- A floating-point number is never written like an integer. -/
theorem intText_ne_floatText (n : Int) (x : Binary64) :
    (Number.int n).text ≠ (Number.float x).text := by
  intro h
  have hnot : ∀ c ∈ (Number.int n).text.toList, c ≠ '.' ∧ c ≠ 'e' := by
    intro c hc
    rw [toList_text_int, List.mem_append] at hc
    rcases hc with hc | hc
    · split at hc
      · rw [List.mem_singleton.1 hc]
        decide
      · cases hc
    · have hdigit := isDigit_of_mem_toDigits hc
      exact ⟨ne_of_isDigit hdigit rfl, ne_of_isDigit hdigit rfl⟩
  rw [h, toList_text_float, floatText_eq] at hnot
  rcases point_or_power_mem_magnitudeText x with hmem | hmem
  · exact (hnot '.' (List.mem_append_right _ hmem)).1 rfl
  · exact (hnot 'e' (List.mem_append_right _ hmem)).2 rfl

/-- **The text of a number tells the number.** -/
theorem text_injective {m n : Number} (h : m.text = n.text) : m = n := by
  cases m with
  | int m =>
    cases n with
    | int n => rw [intText_injective h]
    | float y => exact absurd h (intText_ne_floatText m y)
  | float x =>
    cases n with
    | int n => exact absurd h.symm (intText_ne_floatText n x)
    | float y =>
      have htext := congrArg String.toList h
      rw [toList_text_float, toList_text_float] at htext
      rw [floatText_injective htext]

theorem isNumeral_of_mem_text {n : Number} {c : Char} (hc : c ∈ n.text.toList) :
    IsNumeral c := by
  have hsign : ∀ b : Bool, c ∈ (if b then ['-'] else []) → IsNumeral c := by
    intro b hb
    split at hb
    · rw [List.mem_singleton.1 hb]
      exact .inr List.mem_cons_self
    · cases hb
  cases n with
  | int n =>
    rw [toList_text_int, List.mem_append] at hc
    exact hc.elim (hsign _) fun hc => .inl (isDigit_of_mem_toDigits hc)
  | float x =>
    rw [toList_text_float, floatText_eq, List.mem_append] at hc
    exact hc.elim (hsign _) isNumeral_of_mem_magnitudeText

/-- The text of a number is not empty. -/
theorem text_ne_nil (n : Number) : n.text.toList ≠ [] := by
  cases n with
  | int n =>
    rw [toList_text_int]
    exact fun h => Nat.toDigits_ne_nil (List.append_eq_nil_iff.1 h).2
  | float x =>
    rw [toList_text_float, floatText_eq]
    intro h
    have hmem := point_or_power_mem_magnitudeText x
    rw [(List.append_eq_nil_iff.1 h).2] at hmem
    rcases hmem with hmem | hmem <;> cases hmem

end PolicyDecision.Number
