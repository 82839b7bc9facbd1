/-!
# Named fields in order

A JSON object and the attributes of a document are both lists of named values with strictly
increasing names. Names are compared by code point, which is also the order of their UTF-8
bytes. This module holds the insertion that keeps such a list increasing and what it does to
look-up.
-/

namespace PolicyDecision.Fields

variable {β : Type}

/-- The names increase strictly; in particular no name occurs twice. -/
def Increasing (fields : List (String × β)) : Prop :=
  fields.Pairwise fun a b => a.1 < b.1

/-- Give `key` a value, replacing one that it has, at its place in the order. -/
def insert (key : String) (value : β) : List (String × β) → List (String × β)
  | [] => [(key, value)]
  | (k, v) :: rest =>
    if key < k then (key, value) :: (k, v) :: rest
    else if k < key then (k, v) :: insert key value rest
    else (key, value) :: rest

/-- The fields given by a list of pairs, where a later pair replaces an earlier one of the
same name. -/
def ofList (pairs : List (String × β)) : List (String × β) :=
  pairs.foldl (fun fields pair => insert pair.1 pair.2 fields) []

theorem eq_of_not_lt {a b : String} (hab : ¬a < b) (hba : ¬b < a) : a = b :=
  String.le_antisymm (String.not_lt.1 hba) (String.not_lt.1 hab)

theorem mem_insert {key : String} {value : β} {fields : List (String × β)} {p : String × β} :
    p ∈ insert key value fields → p = (key, value) ∨ p ∈ fields := by
  induction fields with
  | nil => simp [insert]
  | cons field rest ih =>
    obtain ⟨k, v⟩ := field
    rw [insert]
    split
    · simp
    · split
      · intro h
        rcases List.mem_cons.1 h with h | h
        · simp [h]
        · rcases ih h with h | h <;> simp [h]
      · intro h
        rcases List.mem_cons.1 h with h | h <;> simp [h]

theorem increasing_insert (key : String) (value : β) {fields : List (String × β)}
    (h : Increasing fields) : Increasing (insert key value fields) := by
  induction fields with
  | nil => simp [insert, Increasing]
  | cons field rest ih =>
    obtain ⟨k, v⟩ := field
    obtain ⟨hk, hrest⟩ := List.pairwise_cons.1 h
    rw [insert]
    split
    · next hlt =>
      refine List.pairwise_cons.2 ⟨fun p hp => ?_, h⟩
      rcases List.mem_cons.1 hp with rfl | hp
      · exact hlt
      · exact String.lt_trans hlt (hk p hp)
    · split
      · next hgt =>
        refine List.pairwise_cons.2 ⟨fun p hp => ?_, ih hrest⟩
        rcases mem_insert hp with rfl | hp
        · exact hgt
        · exact hk p hp
      · next hlt hgt =>
        have := eq_of_not_lt hlt hgt
        subst this
        exact List.pairwise_cons.2 ⟨hk, hrest⟩

theorem increasing_ofList (pairs : List (String × β)) : Increasing (ofList pairs) := by
  suffices h : ∀ fields : List (String × β), Increasing fields →
      Increasing (pairs.foldl (fun fields pair => insert pair.1 pair.2 fields) fields) from
    h [] List.Pairwise.nil
  induction pairs with
  | nil => exact fun _ h => h
  | cons pair pairs ih => exact fun _ h => ih _ (increasing_insert _ _ h)

theorem lookup_insert (key k : String) (value : β) (fields : List (String × β)) :
    (insert key value fields).lookup k = if k = key then some value else fields.lookup k := by
  by_cases hk : k = key
  · subst hk
    induction fields with
    | nil => simp [insert]
    | cons field rest ih =>
      obtain ⟨k', v⟩ := field
      rw [insert]
      split
      · simp
      · split
        · next hgt =>
          have hne : (k == k') = false := by
            simpa using fun e : k = k' => String.lt_irrefl k' (e ▸ hgt)
          simpa [List.lookup_cons, hne] using ih
        · simp
  · have hk' : (k == key) = false := by simpa using hk
    induction fields with
    | nil => simp [insert, List.lookup_cons, hk, hk']
    | cons field rest ih =>
      obtain ⟨k', v⟩ := field
      rw [insert]
      split
      · simp [List.lookup_cons, hk']
      · split
        · simp only [List.lookup_cons, ih, hk, if_false]
        · next hlt hgt =>
          have := eq_of_not_lt hlt hgt
          subst this
          simp [List.lookup_cons, hk']

end PolicyDecision.Fields
