import Mathlib.Data.List.Pairwise
import PolicyDecision.Table

/-!
# Looking documents up

A table and its look-up are the same thing: a document is in the table exactly when it is found
under its identifier. Putting a document into the table changes what is found under its identifier
and nothing else.
-/

namespace PolicyDecision.Table

variable {α : Type} {kind : Kind} [Identified α kind] {t : Table α} {doc : α} {id : Id kind}

/-- What is found under an identifier has it. -/
theorem idOf_of_find? (h : t.find? id = some doc) : idOf doc = id := by
  simpa using List.find?_some h

theorem mem_of_find? (h : t.find? id = some doc) : doc ∈ t.docs :=
  List.mem_of_find?_eq_some h

/-- Two documents of one identifier are the same. -/
theorem eq_of_mem {a b : α} (ha : a ∈ t.docs) (hb : b ∈ t.docs) (h : idOf a = idOf b) : a = b := by
  by_contra hne
  have : Std.Symm fun a b : α => idOf a ≠ idOf b := ⟨fun _ _ hab => hab.symm⟩
  exact t.distinct.forall ha hb hne h

theorem find?_eq_some_iff : t.find? id = some doc ↔ doc ∈ t.docs ∧ idOf doc = id := by
  refine ⟨fun h => ⟨mem_of_find? h, idOf_of_find? h⟩, ?_⟩
  rintro ⟨hdoc, rfl⟩
  cases hfind : t.find? (idOf doc) with
  | none =>
    have := List.find?_eq_none.1 hfind doc hdoc
    simp at this
  | some a => rw [eq_of_mem (mem_of_find? hfind) hdoc (idOf_of_find? hfind)]

theorem find?_put (docs : List α) (doc : α) (id : Id kind) :
    (put doc docs).find? (fun a => idOf a = id) =
      if idOf doc = id then some doc else docs.find? fun a => idOf a = id := by
  induction docs with
  | nil => by_cases h : idOf doc = id <;> simp [put, h]
  | cons a rest ih =>
    rw [put]
    split
    · next ha => by_cases h : idOf doc = id <;> simp [ha, h]
    · next ha =>
      rw [List.find?_cons, ih, List.find?_cons]
      by_cases h : idOf doc = id
      · have : idOf a ≠ id := fun h' => ha (h'.trans h.symm)
        simp [this, h]
      · simp [h]

@[simp] theorem find?_upsert (t : Table α) (doc : α) (id : Id kind) :
    (t.upsert doc).find? id = if idOf doc = id then some doc else t.find? id :=
  find?_put t.docs doc id

/-- A document put into the table leaves the others as they were. -/
theorem find?_upsert_of_ne (h : id ≠ idOf doc) : (t.upsert doc).find? id = t.find? id := by
  rw [find?_upsert, if_neg h.symm]

/-- A document that is removed leaves the others as they were. -/
theorem find?_erase_of_ne {removed : Id kind} (h : id ≠ removed) :
    (t.erase removed).find? id = t.find? id := by
  show (t.docs.filter fun a => idOf a ≠ removed).find? (fun a => idOf a = id) = t.find? id
  rw [List.find?_filter, find?]
  congr 1
  funext a
  by_cases hid : idOf a = id <;> simp [hid, h]

theorem find?_eq_none_iff : t.find? id = none ↔ ∀ a ∈ t.docs, idOf a ≠ id := by
  simp [find?]

theorem mem_upsert {a : α} : a ∈ (t.upsert doc).docs ↔ a = doc ∨ idOf doc ≠ idOf a ∧ a ∈ t.docs := by
  have hmem : ∀ t : Table α, a ∈ t.docs ↔ t.find? (idOf a) = some a := by
    intro t
    simp [find?_eq_some_iff]
  rw [hmem, hmem, find?_upsert]
  by_cases h : idOf doc = idOf a
  · simp only [h, if_true, Option.some.injEq, ne_eq, not_true, false_and, or_false, eq_comm]
  · have hne : a ≠ doc := fun h' => h (h' ▸ rfl)
    simp [h, hne]

theorem mem_erase {a : α} : a ∈ (t.erase id).docs ↔ idOf a ≠ id ∧ a ∈ t.docs := by
  rw [erase, List.mem_filter, decide_eq_true_iff, and_comm]

theorem put_of_find? {docs : List α} (h : docs.find? (fun a => idOf a = idOf doc) = some doc) :
    put doc docs = docs := by
  induction docs with
  | nil => simp at h
  | cons a rest ih =>
    rw [put]
    split
    · next ha =>
      simp only [List.find?_cons, ha, decide_true, Option.some.injEq] at h
      rw [h]
    · next ha =>
      simp only [List.find?_cons, ha, decide_false] at h
      rw [ih h]

/-- Putting a document where it is already changes nothing. -/
theorem upsert_of_find? (h : t.find? (idOf doc) = some doc) : t.upsert doc = t := by
  have hdocs : (t.upsert doc).docs = t.docs := put_of_find? h
  cases t
  simpa [upsert] using hdocs

/-! ### Places -/

theorem put_of_new {docs : List α} (h : ∀ a ∈ docs, idOf a ≠ idOf doc) :
    put doc docs = docs ++ [doc] := by
  induction docs with
  | nil => rfl
  | cons a docs ih =>
    obtain ⟨ha, hdocs⟩ := List.forall_mem_cons.1 h
    rw [put, if_neg ha, ih hdocs, List.cons_append]

theorem put_of_old {docs : List α} (hdistinct : docs.Pairwise fun a b => idOf a ≠ idOf b)
    (h : ∃ a ∈ docs, idOf a = idOf doc) :
    put doc docs = docs.map fun a => if idOf a = idOf doc then doc else a := by
  induction docs with
  | nil =>
    obtain ⟨a, ha, -⟩ := h
    cases ha
  | cons a docs ih =>
    obtain ⟨ha, hdocs⟩ := List.pairwise_cons.1 hdistinct
    rw [put, List.map_cons]
    by_cases heq : idOf a = idOf doc
    · -- No other document has the identifier, so the rest is left as it is.
      have hrest : ∀ b ∈ docs, (if idOf b = idOf doc then doc else b) = b := by
        intro b hb
        rw [if_neg]
        exact fun h => ha b hb (heq.trans h.symm)
      rw [if_pos heq, if_pos heq, List.map_congr_left hrest, List.map_id']
    · obtain ⟨b, hb, hid⟩ := h
      rcases List.mem_cons.1 hb with rfl | hb
      · exact absurd hid heq
      · rw [if_neg heq, if_neg heq, ih hdocs ⟨b, hb, hid⟩]

/-- A new document goes to the end. -/
theorem docs_upsert_of_new (h : t.find? (idOf doc) = none) : (t.upsert doc).docs = t.docs ++ [doc] :=
  put_of_new (find?_eq_none_iff.1 h)

/-- A document that replaces another takes its place. -/
theorem docs_upsert_of_old (h : ∃ a ∈ t.docs, idOf a = idOf doc) :
    (t.upsert doc).docs = t.docs.map fun a => if idOf a = idOf doc then doc else a :=
  put_of_old t.distinct h

/-! ### What a selection of documents does not notice -/

section Selection

variable {q : α → Bool}

/-- A document that is not selected replaces one that is not selected, or joins the others. -/
theorem filter_put {docs : List α} (hdoc : q doc = false)
    (hold : ∀ a ∈ docs, idOf a = idOf doc → q a = false) : (put doc docs).filter q = docs.filter q := by
  induction docs with
  | nil => simp [put, hdoc]
  | cons a rest ih =>
    obtain ⟨ha, hrest⟩ := List.forall_mem_cons.1 hold
    rw [put]
    split
    · next heq => simp [hdoc, ha heq]
    · rw [List.filter_cons, List.filter_cons, ih hrest]

theorem filter_upsert (hdoc : q doc = false)
    (hold : ∀ a, t.find? (idOf doc) = some a → q a = false) :
    (t.upsert doc).docs.filter q = t.docs.filter q :=
  filter_put hdoc fun a ha hid => hold a (find?_eq_some_iff.2 ⟨ha, hid⟩)

theorem filter_erase (hold : ∀ a, t.find? id = some a → q a = false) :
    (t.erase id).docs.filter q = t.docs.filter q := by
  show (t.docs.filter fun a => idOf a ≠ id).filter q = t.docs.filter q
  rw [List.filter_filter]
  apply List.filter_congr
  intro a ha
  by_cases hid : idOf a = id
  · simp [hid, hold a (find?_eq_some_iff.2 ⟨ha, hid⟩)]
  · simp [hid]

end Selection

end PolicyDecision.Table
