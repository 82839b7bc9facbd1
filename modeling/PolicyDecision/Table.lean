import PolicyDecision.Id

/-!
# Tables of documents

A table holds documents by identifier, in the order in which each identifier was first put
there. Replacing a document keeps its place; a document that is removed and put back goes to the
end.
-/

namespace PolicyDecision

/-- A document that carries its identifier. -/
class Identified (α : Type) (kind : outParam Kind) where
  idOf : α → Id kind

export Identified (idOf)

/-- Documents of distinct identifiers, in order of insertion. -/
structure Table (α : Type) {kind : Kind} [Identified α kind] where
  docs : List α
  distinct : docs.Pairwise (fun a b => idOf a ≠ idOf b) := by simp

namespace Table

variable {α : Type} {kind : Kind} [Identified α kind]

def empty : Table α := { docs := [] }

/-- The document of an identifier. -/
def find? (t : Table α) (id : Id kind) : Option α :=
  t.docs.find? fun a => idOf a = id

/-- Replace the document of the same identifier in a list, or put the document at the end. -/
def put (doc : α) : List α → List α
  | [] => [doc]
  | a :: rest => if idOf a = idOf doc then doc :: rest else a :: put doc rest

theorem mem_put {doc b : α} {docs : List α} (h : b ∈ put doc docs) : b = doc ∨ b ∈ docs := by
  induction docs with
  | nil => simpa [put] using h
  | cons a rest ih =>
    rw [put] at h
    split at h
    · rcases List.mem_cons.1 h with h | h <;> simp [h]
    · rcases List.mem_cons.1 h with h | h
      · simp [h]
      · rcases ih h with h | h <;> simp [h]

theorem distinct_put (doc : α) {docs : List α}
    (h : docs.Pairwise (fun a b => idOf a ≠ idOf b)) :
    (put doc docs).Pairwise (fun a b => idOf a ≠ idOf b) := by
  induction docs with
  | nil => simp [put]
  | cons a rest ih =>
    obtain ⟨ha, hrest⟩ := List.pairwise_cons.1 h
    rw [put]
    split
    · next heq => exact List.pairwise_cons.2 ⟨fun b hb => heq ▸ ha b hb, hrest⟩
    · next hne =>
      refine List.pairwise_cons.2 ⟨fun b hb => ?_, ih hrest⟩
      rcases mem_put hb with rfl | hb
      · exact hne
      · exact ha b hb

/-- Put a document into the table, replacing the one of its identifier. -/
def upsert (t : Table α) (doc : α) : Table α :=
  ⟨put doc t.docs, distinct_put doc t.distinct⟩

/-- Remove the document of an identifier, if there is one. -/
def erase (t : Table α) (id : Id kind) : Table α :=
  ⟨t.docs.filter fun a => idOf a ≠ id, t.distinct.filter _⟩

/-- Put documents into an empty table, one after the other. -/
def ofList (docs : List α) : Table α :=
  docs.foldl upsert empty

end Table
end PolicyDecision
