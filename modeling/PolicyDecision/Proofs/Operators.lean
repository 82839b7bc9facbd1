import PolicyDecision.Operators
import PolicyDecision.Proofs.Act
import PolicyDecision.Proofs.Memo

/-!
# What a batch of operators registers

A batch is registered up to its first reserved name, and fails there (`Operators.extend_apply`). So
what is registered of a batch, and whether it fails, can be told from its names and the reserved ones.

No reserved name is ever registered (`Operators.Lawful`).
-/

namespace PolicyDecision.Operators

variable {α : Type} {ops : Operators α} {name : String} {batch : List (String × Factory α)}

/-! ### One operator -/

/-- The operators with a factory under a name. -/
def put (ops : Operators α) (entry : String × Factory α) : Operators α :=
  { ops with entries := ops.entries.filter (fun other => other.1 ≠ entry.1) ++ [entry] }

@[simp] theorem put_reserved (ops : Operators α) (entry : String × Factory α) :
    (ops.put entry).reserved = ops.reserved := rfl

theorem insert_of_reserved (h : name ∈ ops.reserved) (factory : Factory α) :
    ops.insert name factory = .error (.invalidInput (.reserved name)) :=
  if_pos h

theorem insert_of_not_reserved (h : name ∉ ops.reserved) (factory : Factory α) :
    ops.insert name factory = .ok (ops.put (name, factory)) :=
  if_neg h

/-- The factory put last under a name is the one that is found. -/
theorem find?_put (ops : Operators α) (entry : String × Factory α) (name : String) :
    (ops.put entry).find? name = if name = entry.1 then some entry.2 else ops.find? name := by
  have hothers : ∀ entries : List (String × Factory α),
      (entries.filter fun other => other.1 ≠ entry.1).lookup name =
        if name = entry.1 then none else entries.lookup name := by
    intro entries
    induction entries with
    | nil => simp
    | cons other entries ih => grind
  obtain ⟨added, factory⟩ := entry
  show List.lookup name (_ ++ [(added, factory)]) = _
  rw [List.lookup_append, hothers]
  by_cases hname : name = added
  · simp [hname]
  · simp [hname, List.lookup_cons, beq_false_of_ne hname, find?]

/-- What holds of every entry holds of every factory that is found. -/
theorem forall_of_entries {P : String → Factory α → Prop} (h : ∀ entry ∈ ops.entries, P entry.1 entry.2)
    (name : String) (factory : Factory α) (hfind : ops.find? name = some factory) : P name factory :=
  h (name, factory) (Memo.mem_of_lookup hfind)

/-! ### Batches -/

/-- The first name of a batch that is reserved. -/
def firstReserved (ops : Operators α) (batch : List (String × Factory α)) : Option String :=
  (batch.map Prod.fst).find? fun name => name ∈ ops.reserved

/-- The operators of a batch before its first reserved name. -/
def accepted (ops : Operators α) (batch : List (String × Factory α)) : List (String × Factory α) :=
  batch.takeWhile fun entry => entry.1 ∉ ops.reserved

theorem not_reserved_of_mem_accepted {entry : String × Factory α} (h : entry ∈ ops.accepted batch) :
    entry.1 ∉ ops.reserved := by
  simpa using List.all_eq_true.1 List.all_takeWhile entry h

/-- **A batch is registered up to its first reserved name, and fails there.** -/
theorem extend_apply (batch : List (String × Factory α)) (ops : Operators α) :
    extend batch ops =
      ⟨(ops.firstReserved batch).elim (.ok ()) fun name => .error (.invalidInput (.reserved name)),
        (ops.accepted batch).foldl put ops, []⟩ := by
  induction batch generalizing ops with
  | nil => rfl
  | cons entry rest ih =>
    obtain ⟨name, factory⟩ := entry
    rw [extend, Act.bind_apply]
    by_cases hname : name ∈ ops.reserved
    · simp [Act.bind_apply, insert_of_reserved, hname, firstReserved, accepted]
    · simp only [Act.get_apply, Act.bind_apply, Act.ofExcept_apply, Act.set_apply,
        insert_of_not_reserved hname, ih, firstReserved, accepted, put_reserved, List.map_cons,
        List.find?_cons, List.takeWhile_cons, hname, decide_false, not_false_eq_true, decide_true,
        if_true, List.foldl_cons, List.nil_append]
      rfl

theorem extend_reserved (batch : List (String × Factory α)) (ops : Operators α) :
    (extend batch ops).state.reserved = ops.reserved := by
  rw [extend_apply]
  show ((ops.accepted batch).foldl put ops).reserved = ops.reserved
  generalize ops.accepted batch = entries
  induction entries generalizing ops with
  | nil => rfl
  | cons entry entries ih => rw [List.foldl_cons, ih, put_reserved]

/-- A batch succeeds exactly when it has no reserved name. -/
theorem extend_ok_iff : (extend batch ops).result = .ok () ↔ ops.firstReserved batch = none := by
  rw [extend_apply]
  cases ops.firstReserved batch <;> simp

theorem firstReserved_of_error {e : Error} (h : (extend batch ops).result = .error e) :
    ops.firstReserved batch ≠ none := by
  intro hnone
  cases (extend_ok_iff.2 hnone).symm.trans h

theorem firstReserved_congr {ops' : Operators α} (h : ops.reserved = ops'.reserved) :
    ops.firstReserved batch = ops'.firstReserved batch := by
  rw [firstReserved, h, firstReserved]

theorem accepted_congr {ops' : Operators α} (h : ops.reserved = ops'.reserved) :
    ops.accepted batch = ops'.accepted batch := by
  rw [accepted, h, accepted]

/-- A batch leaves the other operators as they are. -/
theorem find?_extend_of_not_accepted (h : name ∉ (ops.accepted batch).map Prod.fst) :
    (extend batch ops).state.find? name = ops.find? name := by
  rw [extend_apply]
  show ((ops.accepted batch).foldl put ops).find? name = ops.find? name
  generalize ops.accepted batch = entries at h
  induction entries generalizing ops with
  | nil => rfl
  | cons entry entries ih =>
    obtain ⟨hne, hnot⟩ : name ≠ entry.1 ∧ name ∉ entries.map Prod.fst := by simpa using h
    rw [List.foldl_cons, ih hnot, find?_put, if_neg hne]

/-! ### Reserved names -/

/-- No reserved name is registered. -/
def Lawful (ops : Operators α) : Prop :=
  ∀ name ∈ ops.reserved, ops.find? name = none

theorem lawful_of_entries (h : ∀ entry ∈ ops.entries, entry.1 ∉ ops.reserved) : ops.Lawful := by
  intro name hname
  cases hfind : ops.find? name with
  | none => rfl
  | some factory =>
    exact absurd hname (forall_of_entries (P := fun name _ => name ∉ ops.reserved) h name factory hfind)

theorem Lawful.put {entry : String × Factory α} (h : ops.Lawful) (hentry : entry.1 ∉ ops.reserved) :
    (ops.put entry).Lawful := by
  intro name hname
  have hne : name ≠ entry.1 := by
    rintro rfl
    exact hentry hname
  rw [find?_put, if_neg hne]
  exact h name hname

theorem Lawful.extend (h : ops.Lawful) (batch : List (String × Factory α)) :
    (Operators.extend batch ops).state.Lawful := by
  rw [extend_apply]
  have haccepted : ∀ entry ∈ ops.accepted batch, entry.1 ∉ ops.reserved :=
    fun entry => not_reserved_of_mem_accepted
  show ((ops.accepted batch).foldl Operators.put ops).Lawful
  generalize ops.accepted batch = entries at haccepted
  induction entries generalizing ops with
  | nil => exact h
  | cons entry entries ih =>
    obtain ⟨hentry, hentries⟩ := List.forall_mem_cons.1 haccepted
    exact ih (h.put hentry) hentries

end PolicyDecision.Operators
