/-!
# Hexadecimal digits

Numbers are written with lower-case digits and read with digits of either case. Reading the
digits of a number gives the number back.
-/

namespace PolicyDecision.Hex

/-- The last `width` digits of `n`, most significant first. -/
def digits : Nat → Nat → List Char
  | 0, _ => []
  | width + 1, n => digits width (n / 16) ++ [Nat.digitChar (n % 16)]

/-- The value of one digit. -/
def value? (c : Char) : Option Nat :=
  if '0' ≤ c ∧ c ≤ '9' then some (c.toNat - '0'.toNat)
  else if 'a' ≤ c ∧ c ≤ 'f' then some (c.toNat - 'a'.toNat + 10)
  else if 'A' ≤ c ∧ c ≤ 'F' then some (c.toNat - 'A'.toNat + 10)
  else none

/-- The value of a list of digits that follow digits worth `high`. -/
def read (high : Nat) : List Char → Option Nat
  | [] => some high
  | c :: cs =>
    match value? c with
    | some d => read (16 * high + d) cs
    | none => none

@[simp] theorem length_digits (width n : Nat) : (digits width n).length = width := by
  induction width generalizing n with
  | zero => rfl
  | succ width ih => simp [digits, ih]

theorem value?_digitChar {d : Nat} (h : d < 16) : value? (Nat.digitChar d) = some d := by
  have : ∀ d : Fin 16, value? (Nat.digitChar d) = some d.val := by decide
  exact this ⟨d, h⟩

theorem read_append (high : Nat) (cs ds : List Char) :
    read high (cs ++ ds) = (read high cs).bind fun h => read h ds := by
  induction cs generalizing high with
  | nil => rfl
  | cons c cs ih =>
    simp only [List.cons_append, read]
    cases value? c with
    | none => rfl
    | some d => exact ih _

/-- Reading a number's digits gives the number, modulo what the width cannot hold. -/
theorem read_digits (width n : Nat) : read 0 (digits width n) = some (n % Nat.pow 16 width) := by
  induction width generalizing n with
  | zero => simp [digits, read, Nat.mod_one]
  | succ width ih =>
    have hd : n % 16 < 16 := Nat.mod_lt _ (by decide)
    have hm : n % (Nat.pow 16 width * 16) = 16 * (n / 16 % Nat.pow 16 width) + n % 16 := by
      rw [Nat.mul_comm, Nat.mod_mul]
      omega
    rw [digits, read_append, ih]
    show read _ [Nat.digitChar (n % 16)] = some (n % (Nat.pow 16 width * 16))
    rw [read, value?_digitChar hd, hm]
    rfl

end PolicyDecision.Hex
