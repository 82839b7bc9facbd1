import PolicyDecision.Memo

/-!
# What a memo remembers

Looking up, inserting and evicting leave nothing in a memo but entries that were there or the one
just inserted. So what holds of every entry when it is inserted holds of everything that is ever
looked up (`Memo.Each`), whatever the limit and the batch.
-/

namespace PolicyDecision.Memo

variable {κ ν : Type} {P Q : κ → ν → Prop} {m : Memo κ ν} {key : κ} {value : ν}

/-- Whatever is remembered is in `P`. -/
def Each (P : κ → ν → Prop) (m : Memo κ ν) : Prop :=
  ∀ entry ∈ m.entries, P entry.1 entry.2

theorem each_new (config : CacheConfig) : Each P (new config : Memo κ ν) := by
  intro entry hentry
  cases hentry

theorem each_of_ofConfig {config : CacheConfig} (h : ofConfig config = some m) : Each P m := by
  unfold ofConfig at h
  split at h
  · cases h
    exact each_new config
  · cases h

theorem each_clear : Each P m.clear := by
  intro entry hentry
  cases hentry

theorem Each.mono (h : Each P m) (hPQ : ∀ key value, P key value → Q key value) : Each Q m :=
  fun entry hentry => hPQ _ _ (h entry hentry)

variable [BEq κ]

theorem each_cons_without {entries : List (κ × ν)} (hvalue : P key value)
    (h : ∀ entry ∈ entries, P entry.1 entry.2) :
    ∀ entry ∈ (key, value) :: without key entries, P entry.1 entry.2 := by
  intro entry hentry
  rcases List.mem_cons.1 hentry with rfl | hentry
  · exact hvalue
  · exact h entry (List.mem_filter.1 hentry).1

/-- Inserting brings in nothing but what is inserted. -/
theorem Each.insert (h : Each P m) (hvalue : P key value) : Each P (m.insert key value) := by
  have hentries := each_cons_without hvalue h
  unfold Memo.insert
  dsimp only
  split
  · exact fun entry hentry => hentries entry (List.mem_of_mem_take hentry)
  · exact hentries

variable [LawfulBEq κ]

theorem mem_of_lookup {entries : List (κ × ν)} (h : entries.lookup key = some value) :
    (key, value) ∈ entries := by
  obtain ⟨before, after, hsplit, -⟩ := List.lookup_eq_some_iff.1 h
  rw [hsplit]
  exact List.mem_append_right before List.mem_cons_self

/-- What is found was remembered under its key. -/
theorem Each.get (h : Each P m) (key : κ) : (∀ v, (m.get key).1 = some v → P key v) ∧ Each P (m.get key).2 := by
  unfold Memo.get
  split
  · next v hlookup =>
    have hv : P key v := h (key, v) (mem_of_lookup hlookup)
    refine ⟨fun w hw => ?_, each_cons_without hv h⟩
    cases hw
    exact hv
  · exact ⟨nofun, h⟩

end PolicyDecision.Memo
