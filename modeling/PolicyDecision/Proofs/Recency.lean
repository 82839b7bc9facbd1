import Mathlib.Data.List.Induction
import PolicyDecision.Proofs.Memo

/-!
# What a memo holds is most recent

After any sequence of insertions, look-ups and clearings a memo holds each key once, within its limit, and
with the value that was inserted last. Which keys it holds depends on the order in which they were touched,
that is inserted or found: whatever was touched after the last touch of a key that is held is held too
(`Memo.disciplined_after`).

One operation either puts an entry in front of the others and drops some at the end, or changes nothing, or
clears the memo (`Memo.perform_cases`). What is said of the order follows from this alone: whatever is touched
comes to stand before every other key, and stays before a key that is not touched (`Memo.Precedes.perform`).
How many entries are dropped matters for the limit only.
-/

namespace PolicyDecision.Memo

variable {κ ν : Type}

/-- The keys that are held, the most recently used first. -/
def keys (m : Memo κ ν) : List κ :=
  m.entries.map Prod.fst

inductive Operation (κ ν : Type)
  | insert (key : κ) (value : ν)
  | get (key : κ)
  | clear

/-- The operation inserts a value under the key, or clears the memo. -/
def Operation.Sets (key : κ) : Operation κ ν → Prop
  | .insert other _ => other = key
  | .get _ => False
  | .clear => True

/-- The value was the last to be inserted under the key, and the memo has not been cleared since. -/
def LastInserted (history : List (Operation κ ν)) (key : κ) (value : ν) : Prop :=
  ∃ before rest, history = before ++ .insert key value :: rest ∧
    ∀ operation ∈ rest, ¬operation.Sets key

/-- The operation inserts a value under the key, or looks it up and finds it. -/
def Operation.Touches (m : Memo κ ν) (key : κ) : Operation κ ν → Prop
  | .insert other _ => other = key
  | .get other => other = key ∧ key ∈ m.keys
  | .clear => False

/-- There is a limit, the memo has reached it, and the key is a new one. -/
def Overflows (m : Memo κ ν) (key : κ) : Prop :=
  0 < m.maxLength ∧ m.size = m.maxLength ∧ key ∉ m.keys

section BEq

variable [BEq κ]

def Operation.perform (m : Memo κ ν) : Operation κ ν → Memo κ ν
  | .insert key value => m.insert key value
  | .get key => (m.get key).2
  | .clear => m.clear

/-- The memo after some operations. -/
def after (m : Memo κ ν) (history : List (Operation κ ν)) : Memo κ ν :=
  history.foldl Operation.perform m

/-- At this place of the history the key was inserted or found. -/
def TouchedAt (m : Memo κ ν) (history : List (Operation κ ν)) (key : κ) (place : Nat) : Prop :=
  ∃ operation, history[place]? = some operation ∧ operation.Touches (m.after (history.take place)) key

/-- What holds of a memo that started without entries. -/
structure Disciplined (config : CacheConfig) (history : List (Operation κ ν)) (m : Memo κ ν) : Prop where
  distinct : m.keys.Nodup
  limited : 0 < config.maxLength → m.size ≤ config.maxLength
  /-- Without a limit nothing is dropped. -/
  unlimited : config.maxLength = 0 → ∀ before key value rest,
    history = before ++ .insert key value :: rest → .clear ∉ rest → key ∈ m.keys
  found : ∀ key value, (m.get key).1 = some value → LastInserted history key value
  /-- What was touched at a place from which on a key was not touched is held if that key is. -/
  recent : ∀ key ∈ m.keys, ∀ place, (∀ later ≥ place, ¬TouchedAt (new config) history key later) →
    ∀ other, TouchedAt (new config) history other place → other ∈ m.keys
  /-- A batch is dropped when there are too many entries, and the new one with it if the batch is larger
  than the memo. -/
  overflowing : ∀ key value, m.Overflows key →
    (m.insert key value).size = config.maxLength + 1 - min (max config.evictBatch 1) (config.maxLength + 1) ∧
      (key ∈ (m.insert key value).keys ↔ config.evictBatch ≤ config.maxLength)
  /-- Else none is dropped. -/
  fitting : ∀ key value, ¬m.Overflows key →
    ∀ other, other ∈ (m.insert key value).keys ↔ other = key ∨ other ∈ m.keys

end BEq

variable {m : Memo κ ν} {key other : κ} {value : ν} {operation : Operation κ ν}
  {history : List (Operation κ ν)}

/-- An operation touches one key at most. -/
theorem Operation.Touches.eq (h : operation.Touches m key) (h' : operation.Touches m other) : key = other := by
  cases operation with
  | insert added value => exact Eq.trans (Eq.symm h) h'
  | get sought => exact Eq.trans (Eq.symm h.1) h'.1
  | clear => cases h

theorem LastInserted.snoc (h : LastInserted history key value) (hkept : ¬operation.Sets key) :
    LastInserted (history ++ [operation]) key value := by
  obtain ⟨before, rest, rfl, hrest⟩ := h
  refine ⟨before, rest ++ [operation], by simp, ?_⟩
  intro later hlater
  rcases List.mem_append.1 hlater with hlater | hlater
  · exact hrest later hlater
  · rwa [List.mem_singleton.1 hlater]

/-- There are no more entries than the limit. -/
def Limited (m : Memo κ ν) : Prop :=
  0 < m.maxLength → m.size ≤ m.maxLength

/-! ### Operations -/

variable [BEq κ]

theorem after_append (m : Memo κ ν) (before rest : List (Operation κ ν)) :
    m.after (before ++ rest) = (m.after before).after rest :=
  List.foldl_append ..

theorem after_snoc (m : Memo κ ν) (history : List (Operation κ ν)) (operation : Operation κ ν) :
    m.after (history ++ [operation]) = operation.perform (m.after history) :=
  after_append m history [operation]

/-- No operation changes the limit or the batch. -/
theorem perform_bounds (m : Memo κ ν) (operation : Operation κ ν) :
    (operation.perform m).maxLength = m.maxLength ∧ (operation.perform m).evictBatch = m.evictBatch := by
  cases operation with
  | insert key value =>
    simp only [Operation.perform, insert]
    split <;> exact ⟨rfl, rfl⟩
  | get key =>
    simp only [Operation.perform, get]
    split <;> exact ⟨rfl, rfl⟩
  | clear => exact ⟨rfl, rfl⟩

theorem after_bounds (m : Memo κ ν) (history : List (Operation κ ν)) :
    (m.after history).maxLength = m.maxLength ∧ (m.after history).evictBatch = m.evictBatch := by
  induction history using List.reverseRecOn with
  | nil => exact ⟨rfl, rfl⟩
  | append_singleton history operation ih =>
    obtain ⟨hlength, hbatch⟩ := perform_bounds (m.after history) operation
    rw [after_snoc]
    exact ⟨hlength.trans ih.1, hbatch.trans ih.2⟩

theorem TouchedAt.lt {place : Nat} (h : TouchedAt m history key place) : place < history.length :=
  have ⟨_, hoperation, _⟩ := h
  (List.getElem?_eq_some_iff.1 hoperation).1

theorem touchedAt_snoc {place : Nat} :
    TouchedAt m (history ++ [operation]) key place ↔
      TouchedAt m history key place ∨ place = history.length ∧ operation.Touches (m.after history) key := by
  unfold TouchedAt
  rcases Nat.lt_trichotomy place history.length with hlt | rfl | hgt
  · rw [List.getElem?_append_left hlt, List.take_append_of_le_length (Nat.le_of_lt hlt)]
    simp [Nat.ne_of_lt hlt]
  · simp
  · have hlength : (history ++ [operation]).length ≤ place := by
      rw [List.length_append]
      exact hgt
    simp [List.getElem?_eq_none hlength, List.getElem?_eq_none (Nat.le_of_lt hgt), Nat.ne_of_gt hgt]

/-! ### Insertions -/

theorem keys_without (key : κ) (entries : List (κ × ν)) :
    (without key entries).map Prod.fst = (entries.map Prod.fst).filter fun other => !(other == key) := by
  rw [without, List.filter_map]
  rfl

variable [LawfulBEq κ]

theorem not_mem_keys_of_lookup (h : m.entries.lookup key = none) : key ∉ m.keys := by
  intro hkey
  obtain ⟨entry, hentry, rfl⟩ := List.mem_map.1 hkey
  simpa using List.lookup_eq_none_iff.1 h entry hentry

theorem without_of_not_mem (h : key ∉ m.keys) : without key m.entries = m.entries := by
  rw [without, List.filter_eq_self]
  intro entry hentry
  have hne : entry.1 ≠ key := fun heq => h (heq ▸ List.mem_map_of_mem hentry)
  simpa using hne

/-- There is an entry less without that of a key that is held. -/
theorem length_without_lt (h : key ∈ m.keys) : (without key m.entries).length < m.size := by
  obtain ⟨entry, hentry, rfl⟩ := List.mem_map.1 h
  exact List.length_filter_lt_length_iff_exists.2 ⟨entry, hentry, by simp⟩

/-- There are too many entries exactly if the memo is full and the key is a new one. -/
theorem Limited.overflows_iff (h : m.Limited) (key : κ) (value : ν) :
    0 < m.maxLength ∧ m.maxLength < ((key, value) :: without key m.entries).length ↔ m.Overflows key := by
  rw [Overflows, List.length_cons]
  refine and_congr_right fun hlimit => ?_
  have hle := h hlimit
  by_cases hkey : key ∈ m.keys
  · have hlt := length_without_lt hkey
    refine iff_of_false (by omega) fun hoverflows => hoverflows.2 hkey
  · rw [without_of_not_mem hkey, and_iff_left hkey]
    show m.maxLength < m.size + 1 ↔ m.size = m.maxLength
    omega

theorem Limited.entries_insert_of_overflows (hlimit : m.Limited) (h : m.Overflows key) (value : ν) :
    (m.insert key value).entries =
      ((key, value) :: m.entries).take (m.maxLength + 1 - max m.evictBatch 1) := by
  have hsize : m.entries.length = m.maxLength := h.2.1
  rw [insert, if_pos ((hlimit.overflows_iff key value).2 h), without_of_not_mem h.2.2, List.length_cons, hsize]

theorem Limited.entries_insert_of_fits (hlimit : m.Limited) (h : ¬m.Overflows key) (value : ν) :
    (m.insert key value).entries = (key, value) :: without key m.entries := by
  rw [insert, if_neg (mt (hlimit.overflows_iff key value).1 h)]

/-- A batch is dropped, with the new entry if it is larger than the memo. -/
theorem Limited.insert_overflowing (hlimit : m.Limited) (h : m.Overflows key) (value : ν) :
    (m.insert key value).size = m.maxLength + 1 - min (max m.evictBatch 1) (m.maxLength + 1) ∧
      (key ∈ (m.insert key value).keys ↔ m.evictBatch ≤ m.maxLength) := by
  have hentries := hlimit.entries_insert_of_overflows h value
  have hsize : m.entries.length = m.maxLength := h.2.1
  have hpos : 0 < m.maxLength := h.1
  rw [size, keys, hentries]
  constructor
  · rw [List.length_take, List.length_cons, hsize]
    omega
  · by_cases hbatch : m.evictBatch ≤ m.maxLength
    · have hcount : m.maxLength + 1 - max m.evictBatch 1 = m.maxLength - max m.evictBatch 1 + 1 := by omega
      simp [hcount, hbatch]
    · have hcount : m.maxLength + 1 - max m.evictBatch 1 = 0 := by omega
      simp [hcount, hbatch]

theorem mem_keys_cons_without :
    other ∈ ((key, value) :: without key m.entries).map Prod.fst ↔ other = key ∨ other ∈ m.keys := by
  rw [List.map_cons, List.mem_cons, keys_without, List.mem_filter]
  by_cases hother : other = key <;> simp [hother, keys]

/-- Where there is no overflow, no key is dropped. -/
theorem Limited.insert_fitting (hlimit : m.Limited) (h : ¬m.Overflows key) (value : ν) (other : κ) :
    other ∈ (m.insert key value).keys ↔ other = key ∨ other ∈ m.keys := by
  rw [keys, hlimit.entries_insert_of_fits h value, mem_keys_cons_without]

theorem insert_unlimited (hlimit : m.maxLength = 0) (value : ν) (other : κ) :
    other ∈ (m.insert key value).keys ↔ other = key ∨ other ∈ m.keys := by
  have hlimited : m.Limited := fun hpos => absurd hlimit (Nat.ne_of_gt hpos)
  have hfits : ¬m.Overflows key := fun hoverflows => Nat.ne_of_gt hoverflows.1 hlimit
  exact hlimited.insert_fitting hfits value other

/-! ### One operation -/

/-- What an operation can do to the entries: put one in front of the others and keep a beginning of that,
leave them as they are, or drop them all. -/
theorem perform_cases (m : Memo κ ν) (operation : Operation κ ν) :
    (∃ key value, operation.Touches m key ∧
        (operation.perform m).entries <+: (key, value) :: without key m.entries ∧
        (operation = .insert key value ∨ operation = .get key ∧ (key, value) ∈ m.entries)) ∨
      (∃ sought, operation = .get sought ∧ sought ∉ m.keys ∧ operation.perform m = m) ∨ operation = .clear := by
  cases operation with
  | insert key value =>
    refine .inl ⟨key, value, rfl, ?_, .inl rfl⟩
    simp only [Operation.perform, insert]
    split
    · exact List.take_prefix _ _
    · exact List.prefix_rfl
  | get key =>
    cases hlookup : m.entries.lookup key with
    | none =>
      refine .inr (.inl ⟨key, rfl, not_mem_keys_of_lookup hlookup, ?_⟩)
      simp only [Operation.perform, get, hlookup]
    | some value =>
      have hmem := mem_of_lookup hlookup
      refine .inl ⟨key, value, ⟨rfl, List.mem_map_of_mem hmem⟩, ?_, .inr ⟨rfl, hmem⟩⟩
      simp only [Operation.perform, get, hlookup]
      exact List.prefix_rfl
  | clear => exact .inr (.inr rfl)

theorem nodup_perform (h : m.keys.Nodup) (operation : Operation κ ν) : (operation.perform m).keys.Nodup := by
  obtain ⟨key, value, -, hentries, -⟩ | ⟨-, -, -, hsame⟩ | rfl := perform_cases m operation
  · refine (hentries.map Prod.fst).sublist.nodup ?_
    rw [List.map_cons, keys_without]
    exact List.nodup_cons.2 ⟨by simp, h.filter _⟩
  · rwa [hsame]
  · exact List.nodup_nil

/-- No more than one entry is added, and none by a look-up. -/
theorem Limited.perform (h : m.Limited) (operation : Operation κ ν) : (operation.perform m).Limited := by
  rw [Limited, (perform_bounds m operation).1]
  intro hlimit
  have hle := h hlimit
  cases operation with
  | insert key value =>
    simp only [Operation.perform]
    by_cases hoverflows : m.Overflows key
    · rw [(h.insert_overflowing hoverflows value).1]
      omega
    · rw [size, h.entries_insert_of_fits hoverflows]
      exact Nat.le_of_not_lt fun hlt => hoverflows ((h.overflows_iff key value).1 ⟨hlimit, hlt⟩)
  | get key =>
    obtain ⟨found, value, ⟨rfl, hfound⟩, hentries, -⟩ | ⟨-, -, -, hsame⟩ | hclear := perform_cases m (.get key)
    · have hlt := length_without_lt hfound
      have hlength := hentries.length_le
      rw [List.length_cons] at hlength
      rw [size]
      omega
    · rwa [hsame]
    · cases hclear
  | clear => exact Nat.zero_le _

/-- Without a limit, only clearing drops a key. -/
theorem mem_keys_perform (hlimit : m.maxLength = 0) (hclear : operation ≠ .clear) (h : key ∈ m.keys) :
    key ∈ (operation.perform m).keys := by
  cases operation with
  | insert added value => exact (insert_unlimited hlimit value key).2 (.inr h)
  | get sought =>
    simp only [Operation.perform, get]
    split
    · exact mem_keys_cons_without.2 (.inr h)
    · exact h
  | clear => exact absurd rfl hclear

/-- **One operation** leaves what was inserted last. -/
theorem Each.perform (h : Each (LastInserted history) m) (operation : Operation κ ν) :
    Each (LastInserted (history ++ [operation])) (operation.perform m) := by
  obtain ⟨key, value, -, hentries, hfirst⟩ | ⟨sought, rfl, -, hsame⟩ | rfl := perform_cases m operation
  · intro entry hentry
    -- The entry in front was inserted just now or found; the others have another key.
    rcases List.mem_cons.1 (hentries.subset hentry) with rfl | hentry
    · rcases hfirst with rfl | ⟨rfl, hheld⟩
      · exact ⟨history, [], rfl, by simp⟩
      · exact (h _ hheld).snoc id
    · obtain ⟨hheld, hother⟩ := List.mem_filter.1 hentry
      have hother : key ≠ entry.1 := by
        rintro rfl
        simp at hother
      refine (h _ hheld).snoc ?_
      rcases hfirst with rfl | ⟨rfl, -⟩
      · exact hother
      · exact id
  · rw [hsame]
    exact fun entry hentry => (h entry hentry).snoc id
  · exact each_clear

/-! ### Recency -/

/-- As many of the most recent keys as include the one include the other. -/
def Precedes (m : Memo κ ν) (other key : κ) : Prop :=
  ∀ recent, recent <+: m.keys → key ∈ recent → other ∈ recent

/-- Whatever is touched stands before every other key. -/
theorem Operation.Touches.precedes (h : operation.Touches m other) (key : κ) :
    (operation.perform m).Precedes other key := by
  obtain ⟨first, value, hfirst, hentries, -⟩ | ⟨sought, rfl, hsought, -⟩ | rfl := perform_cases m operation
  · cases h.eq hfirst
    intro recent hrecent hkey
    have hprefix := hrecent.trans (hentries.map Prod.fst)
    rw [List.map_cons, List.prefix_cons_iff] at hprefix
    obtain rfl | ⟨rest, rfl, -⟩ := hprefix
    · cases hkey
    · exact List.mem_cons_self
  · exact absurd (h.1 ▸ h.2) hsought
  · cases h

/-- **What stands before a key** does so until that key is touched. -/
theorem Precedes.perform (h : m.Precedes other key) (hkey : ¬operation.Touches m key) :
    (operation.perform m).Precedes other key := by
  obtain ⟨first, value, hfirst, hentries, -⟩ | ⟨-, -, -, hsame⟩ | rfl := perform_cases m operation
  · intro recent hrecent hmem
    have hne : key ≠ first := fun heq => hkey (heq ▸ hfirst)
    have hprefix := hrecent.trans (hentries.map Prod.fst)
    rw [List.map_cons, keys_without, List.prefix_cons_iff] at hprefix
    obtain rfl | ⟨rest, rfl, hrest⟩ := hprefix
    · cases hmem
    -- Behind the first key stand the most recent of the old ones, without that key.
    obtain ⟨kept, hkept, rfl⟩ := List.prefix_filter_iff.1 hrest
    have hmem : key ∈ kept := (List.mem_filter.1 ((List.mem_cons.1 hmem).resolve_left hne)).1
    have hother : other ∈ kept := h kept hkept hmem
    by_cases heq : other = first
    · exact heq ▸ List.mem_cons_self
    · exact List.mem_cons_of_mem first (List.mem_filter.2 ⟨hother, by simpa using heq⟩)
  · rwa [hsame]
  · intro recent hrecent hmem
    cases List.prefix_nil.1 hrecent
    cases hmem

/-! ### Histories -/

theorem nodup_after (h : m.keys.Nodup) (history : List (Operation κ ν)) : (m.after history).keys.Nodup := by
  induction history using List.reverseRecOn with
  | nil => exact h
  | append_singleton history operation ih =>
    rw [after_snoc]
    exact nodup_perform ih operation

theorem Limited.after (h : m.Limited) (history : List (Operation κ ν)) : (m.after history).Limited := by
  induction history using List.reverseRecOn with
  | nil => exact h
  | append_singleton history operation ih =>
    rw [after_snoc]
    exact ih.perform operation

theorem mem_keys_after (hlimit : m.maxLength = 0) (hclear : .clear ∉ history) (h : key ∈ m.keys) :
    key ∈ (m.after history).keys := by
  induction history using List.reverseRecOn with
  | nil => exact h
  | append_singleton history operation ih =>
    rw [List.mem_append, List.mem_singleton, not_or] at hclear
    rw [after_snoc]
    exact mem_keys_perform ((after_bounds m history).1.trans hlimit) (Ne.symm hclear.2) (ih hclear.1)

theorem each_after (config : CacheConfig) (history : List (Operation κ ν)) :
    Each (LastInserted history) ((new config).after history) := by
  induction history using List.reverseRecOn with
  | nil => exact each_new config
  | append_singleton history operation ih =>
    rw [after_snoc]
    exact ih.perform operation

/-- **Whatever is touched** stands before the keys that are not touched from then on. -/
theorem precedes_after (m : Memo κ ν) (history : List (Operation κ ν)) {place : Nat}
    (hkey : ∀ later ≥ place, ¬TouchedAt m history key later) (hother : TouchedAt m history other place) :
    (m.after history).Precedes other key := by
  induction history using List.reverseRecOn with
  | nil =>
    obtain ⟨operation, hoperation, -⟩ := hother
    cases hoperation
  | append_singleton history operation ih =>
    rw [after_snoc]
    -- The other was touched before this operation, which does not touch the key, or by it.
    rcases touchedAt_snoc.1 hother with hbefore | ⟨-, htouches⟩
    · have hplace : place ≤ history.length := Nat.le_of_lt hbefore.lt
      have hsince : ∀ later ≥ place, ¬TouchedAt m history key later :=
        fun later hlater htouched => hkey later hlater (touchedAt_snoc.2 (.inl htouched))
      exact (ih hsince hbefore).perform fun htouches =>
        hkey history.length hplace (touchedAt_snoc.2 (.inr ⟨rfl, htouches⟩))
    · exact htouches.precedes key

/-- **A memo is disciplined** after every sequence of operations. -/
theorem disciplined_after (config : CacheConfig) (history : List (Operation κ ν)) :
    Disciplined config history ((new config).after history) := by
  have hlimited : ((new config : Memo κ ν).after history).Limited :=
    Limited.after (fun _ => Nat.zero_le _) history
  obtain ⟨hlength, hbatch⟩ : ((new config : Memo κ ν).after history).maxLength = config.maxLength ∧
      ((new config : Memo κ ν).after history).evictBatch = config.evictBatch := after_bounds _ history
  have hnil : (new config : Memo κ ν).keys.Nodup := List.nodup_nil
  refine ⟨nodup_after hnil history, ?_, ?_, ?_, ?_, ?_, ?_⟩
  · intro hpos
    rw [← hlength]
    exact hlimited (hlength ▸ hpos)
  · rintro hzero before key value rest rfl hclear
    have hinsert : ((new config : Memo κ ν).after before).maxLength = 0 :=
      (after_bounds _ before).1.trans hzero
    rw [after_append]
    refine mem_keys_after (m := ((new config).after before).insert key value) ?_ hclear ?_
    · exact (perform_bounds _ (.insert key value)).1.trans hinsert
    · exact (insert_unlimited hinsert value key).2 (.inl rfl)
  · exact fun key => ((each_after config history).get key).1
  · intro key hkey place huntouched other hother
    exact precedes_after (new config) history huntouched hother _ List.prefix_rfl hkey
  · intro key value hoverflows
    rw [← hlength, ← hbatch]
    exact hlimited.insert_overflowing hoverflows value
  · intro key value hfits other
    exact hlimited.insert_fitting hfits value other

/-- A memo of three that drops two at a time: a fourth key leaves itself and the key that was found last. -/
theorem disciplined_after_overflow :
    let config : CacheConfig := { enabled := true, maxLength := 3, evictBatch := 2 }
    let history : List (Operation Nat Nat) := [.insert 1 10, .insert 2 20, .insert 3 30, .get 1]
    let m := (new config).after history
    Disciplined config history m ∧ m.Overflows 4 ∧ (m.insert 4 40).size = 2 ∧ (m.insert 4 40).keys = [4, 1] := by
  intro config history m
  have hm : Disciplined config history m := disciplined_after config history
  have hoverflows : m.Overflows 4 := ⟨by decide, by decide, by decide⟩
  exact ⟨hm, hoverflows, (hm.overflowing 4 40 hoverflows).1, by decide⟩

end PolicyDecision.Memo
