import PolicyDecision.Id

/-!
# Finite sets of identifiers

A set is kept as its members in strictly increasing order. Two sets are equal exactly when
they have the same members, and a set has one printed order.
-/

namespace PolicyDecision

namespace Id

variable {kind : Kind}

/-- Put `x` into an increasing list, keeping it increasing and without repeats. -/
def insertSorted (x : Id kind) : List (Id kind) → List (Id kind)
  | [] => [x]
  | y :: ys => if x < y then x :: y :: ys else if y < x then y :: insertSorted x ys else y :: ys

theorem mem_insertSorted {x a : Id kind} {ys : List (Id kind)} :
    a ∈ insertSorted x ys ↔ a = x ∨ a ∈ ys := by
  induction ys with
  | nil => simp [insertSorted]
  | cons y ys ih =>
    rw [insertSorted]
    split
    · simp
    · split
      · simp [ih, or_left_comm]
      · next hxy hyx =>
        have := eq_of_not_lt hxy hyx
        subst this
        simp

theorem pairwise_insertSorted (x : Id kind) {ys : List (Id kind)}
    (h : ys.Pairwise (· < ·)) : (insertSorted x ys).Pairwise (· < ·) := by
  induction ys with
  | nil => simp [insertSorted]
  | cons y ys ih =>
    obtain ⟨hy, hys⟩ := List.pairwise_cons.1 h
    rw [insertSorted]
    split
    · next hxy =>
      refine List.pairwise_cons.2 ⟨fun a ha => ?_, h⟩
      rcases List.mem_cons.1 ha with rfl | ha
      · exact hxy
      · exact lt_trans hxy (hy a ha)
    · split
      · next hyx =>
        refine List.pairwise_cons.2 ⟨fun a ha => ?_, ih hys⟩
        rcases mem_insertSorted.1 ha with rfl | ha
        · exact hyx
        · exact hy a ha
      · exact h

end Id

/-- A finite set of identifiers. -/
structure IdSet (kind : Kind) where
  toList : List (Id kind)
  increasing : toList.Pairwise (· < ·) := by simp

namespace IdSet

variable {kind : Kind}

instance : DecidableEq (IdSet kind) := fun s t =>
  decidable_of_iff (s.toList = t.toList)
    ⟨fun h => by cases s; cases t; simpa using h, fun h => h ▸ rfl⟩

instance : Membership (Id kind) (IdSet kind) := ⟨fun s x => x ∈ s.toList⟩

instance (x : Id kind) (s : IdSet kind) : Decidable (x ∈ s) :=
  inferInstanceAs (Decidable (x ∈ s.toList))

def empty : IdSet kind := { toList := [] }

/-- The set with one more member. -/
def insert (s : IdSet kind) (x : Id kind) : IdSet kind :=
  ⟨Id.insertSorted x s.toList, Id.pairwise_insertSorted x s.increasing⟩

/-- The members of a list. -/
def ofList (xs : List (Id kind)) : IdSet kind :=
  xs.foldl insert empty

/-- How many members the set has. -/
def size (s : IdSet kind) : Nat :=
  s.toList.length

@[simp] theorem not_mem_empty (x : Id kind) : ¬x ∈ (empty : IdSet kind) :=
  List.not_mem_nil

@[simp] theorem mem_insert {s : IdSet kind} {x a : Id kind} : a ∈ s.insert x ↔ a = x ∨ a ∈ s :=
  Id.mem_insertSorted

@[simp] theorem mem_ofList {xs : List (Id kind)} {a : Id kind} : a ∈ ofList xs ↔ a ∈ xs := by
  suffices h : ∀ s : IdSet kind, a ∈ xs.foldl insert s ↔ a ∈ s ∨ a ∈ xs by
    simpa [ofList] using h empty
  induction xs with
  | nil => simp
  | cons x xs ih =>
    intro s
    simp only [List.foldl_cons, ih, mem_insert, List.mem_cons]
    grind

/-- A set is determined by its members. -/
@[ext] theorem ext {s t : IdSet kind} (h : ∀ a, a ∈ s ↔ a ∈ t) : s = t := by
  obtain ⟨xs, hx⟩ := s
  obtain ⟨ys, hy⟩ := t
  have h' : ∀ a, a ∈ xs ↔ a ∈ ys := h
  clear h
  congr
  induction xs generalizing ys with
  | nil =>
    cases ys with
    | nil => rfl
    | cons y ys => exact absurd ((h' y).2 (by simp)) (by simp)
  | cons x xs ih =>
    cases ys with
    | nil => exact absurd ((h' x).1 (by simp)) (by simp)
    | cons y ys =>
      obtain ⟨hx₁, hx₂⟩ := List.pairwise_cons.1 hx
      obtain ⟨hy₁, hy₂⟩ := List.pairwise_cons.1 hy
      have hxy : x = y := by
        rcases List.mem_cons.1 ((h' x).1 (by simp)) with e | hmem
        · exact e
        · rcases List.mem_cons.1 ((h' y).2 (by simp)) with e | hmem'
          · exact e.symm
          · exact absurd (Id.lt_trans (hx₁ y hmem') (hy₁ x hmem)) (Id.lt_irrefl x)
      subst hxy
      congr
      refine ih hx₂ ys hy₂ fun a => ?_
      have := h' a
      simp only [List.mem_cons] at this
      constructor
      · intro ha
        rcases this.1 (Or.inr ha) with rfl | h
        · exact absurd (hx₁ a ha) (Id.lt_irrefl a)
        · exact h
      · intro ha
        rcases this.2 (Or.inr ha) with rfl | h
        · exact absurd (hy₁ a ha) (Id.lt_irrefl a)
        · exact h

end IdSet
end PolicyDecision
