import PolicyDecision.Proofs.Normal
import PolicyDecision.Proofs.Sameness

/-!
# No clause is lost in writing

A restrictor is written as an object, which brings its clauses into the order of their keys, or as a list if a
key is repeated. Either way it is read back with the clauses that it had (`Restrictor.ofJson_toJson_eq`). So
what is written tells restrictors apart, but for the order of clauses with distinct keys
(`Restrictor.toJson_lossless`).

Values that are written are compared by `==`, which is weaker than `=`. But writing commutes with taking
standard forms (`Restrictor.standard_toJson`), so what holds of values that are the same holds of values that
are equal.
-/

namespace PolicyDecision

/-! ### Standard forms of objects -/

namespace Fields

variable {β γ : Type} (f : β → γ)

theorem map_insert (key : String) (value : β) (fields : List (String × β)) :
    (insert key value fields).map (Prod.map id f) = insert key (f value) (fields.map (Prod.map id f)) := by
  induction fields with
  | nil => rfl
  | cons field fields ih =>
    obtain ⟨k, v⟩ := field
    simp only [insert, List.map_cons, Prod.map, id]
    split
    · rfl
    · split
      · rw [List.map_cons, ih]
        rfl
      · rfl

theorem map_ofList (fields : List (String × β)) :
    (ofList fields).map (Prod.map id f) = ofList (fields.map (Prod.map id f)) := by
  rw [ofList, ofList, List.foldl_map]
  exact (List.foldl_hom (List.map (Prod.map id f)) fun kept field =>
    (map_insert f field.1 field.2 kept).symm).symm

end Fields

theorem Json.standard_ofFields (fields : List (String × Json)) :
    (ofFields fields).standard = ofFields (fields.map (Prod.map id standard)) := by
  rw [ofFields, standard, standardFields_eq, ofFields, ← Fields.map_ofList]
  rfl

theorem Json.standard_single (key : String) (value : Json) :
    (single key value).standard = single key value.standard := by
  rw [single, standard, standardFields_eq]
  rfl

namespace Clause

@[simp] theorem key_standard (c : Clause) : c.standard.key = c.key := by
  cases c <;> rfl

@[simp] theorem value_standard (c : Clause) : c.standard.value = c.value.standard := by
  cases c <;> simp [standard, value, Json.standard]

end Clause

namespace Restrictor

/-- What is written of the standard form is the standard form of what is written. -/
theorem standard_toJson (r : Restrictor) : r.standard.toJson = r.toJson.standard := by
  cases r with
  | wildcard => rw [standard, toJson, Json.standard]
  | noOwner => rw [standard, toJson, Json.standard]
  | all clauses =>
    have hkeys : (clauses.map Clause.standard).map Clause.key = clauses.map Clause.key := by simp
    rw [standard, toJson, toJson, hkeys]
    split
    · simp [Json.standard_ofFields, Function.comp_def]
    · simp [Json.standard, Json.standardItems_eq, Json.standard_single, Function.comp_def]

theorem shadowedBuiltin?_standard (r : Restrictor) : r.standard.shadowedBuiltin? = r.shadowedBuiltin? := by
  cases r with
  | all clauses =>
    simp only [standard, shadowedBuiltin?, List.findSome?_map]
    congr 1
    funext clause
    cases clause <;> rfl
  | _ => rfl

/-! ### Reading what was written -/

/-- The restrictor with its clauses in the order of their keys, unless a key is repeated. -/
def sorted : Restrictor → Restrictor
  | .wildcard => .wildcard
  | .noOwner => .noOwner
  | .all clauses =>
    .all (if (clauses.map Clause.key).Nodup then clauses.mergeSort fun c d => c.key ≤ d.key else clauses)

theorem reordered_sorted (r : Restrictor) : Reordered r.sorted r := by
  cases r with
  | wildcard => exact .wildcard
  | noOwner => exact .noOwner
  | all clauses =>
    rw [sorted]
    split
    · exact .all (List.mergeSort_perm clauses _)
    · exact .all (.refl _)

/-- There is one order of the keys only if they are distinct. -/
theorem eq_mergeSort {clauses clauses' : List Clause} (hnodup : (clauses.map Clause.key).Nodup)
    (hperm : clauses'.Perm clauses) (hincreasing : clauses'.Pairwise fun c d => c.key < d.key) :
    clauses' = clauses.mergeSort fun c d => c.key ≤ d.key := by
  have hsorted : (clauses.mergeSort fun c d => c.key ≤ d.key).Pairwise
      fun c d => decide (c.key ≤ d.key) = true :=
    List.pairwise_mergeSort
      (fun a b c hab hbc => by simpa using String.le_trans (by simpa using hab) (by simpa using hbc))
      (fun a b => by simpa using String.le_total a.key b.key) clauses
  refine (hperm.trans (List.mergeSort_perm clauses _).symm).eq_of_pairwise ?_
    (hincreasing.imp fun hlt => ?_) hsorted
  · intro c d hc hd hcd hdc
    have hkey : c.key = d.key := String.le_antisymm (by simpa using hcd) (by simpa using hdc)
    exact List.inj_on_of_nodup_map hnodup (hperm.mem_iff.1 hc) (List.mem_mergeSort.1 hd) hkey
  · simpa using String.not_lt.1 fun hgt => String.lt_irrefl _ (String.lt_trans hlt hgt)

variable {r s : Restrictor}

/-- **A restrictor is read back**, in the order of its keys. -/
theorem ofJson_toJson_eq (h : r.shadowedBuiltin? = none) : ofJson r.toJson = .ok r.sorted := by
  cases r with
  | wildcard => rfl
  | noOwner => rfl
  | all clauses =>
    have hclauses : ∀ c ∈ clauses, c.Unshadowed := fun _ => unshadowed_of_mem h
    by_cases hnodup : (clauses.map Clause.key).Nodup
    · obtain ⟨clauses', hperm, hfields, hread⟩ := ofJson_toJson_of_nodup hclauses hnodup
      have hincreasing : Fields.Increasing (clauses'.map fun c => (c.key, c.value)) := by
        rw [hfields]
        exact Fields.increasing_ofList _
      rw [Fields.Increasing, List.pairwise_map] at hincreasing
      rw [hread, sorted, if_pos hnodup, eq_mergeSort hnodup hperm hincreasing]
    · rw [ofJson_toJson_of_repeated hclauses hnodup, sorted, if_neg hnodup]

/-! ### Telling restrictors apart -/

variable {cs ds : List Clause}

theorem Reordered.perm (h : Reordered (.all cs) (.all ds)) : cs.Perm ds := by
  cases h with
  | all h => exact h

theorem Reordered.symm (h : Reordered r s) : Reordered s r := by
  cases h with
  | wildcard => exact .wildcard
  | noOwner => exact .noOwner
  | all h => exact .all h.symm

theorem Reordered.trans {t : Restrictor} (h : Reordered r s) (h' : Reordered s t) : Reordered r t := by
  cases h with
  | wildcard => exact h'
  | noOwner => exact h'
  | all h =>
    cases h' with
    | all h' => exact .all (h.trans h')

/-- What is equal to a reordering but for the signs of zeros is a reordering of something equal. -/
theorem Reordered.of_standard (h : Reordered r.standard s.standard) :
    ∃ s', Reordered s' s ∧ (r == s') = true := by
  cases r with
  | wildcard =>
    cases s with
    | wildcard => exact ⟨.wildcard, .wildcard, rfl⟩
    | _ => cases h
  | noOwner =>
    cases s with
    | noOwner => exact ⟨.noOwner, .noOwner, rfl⟩
    | _ => cases h
  | all cs =>
    cases s with
    | all ds =>
      obtain ⟨ds', hperm, hmap⟩ := exists_perm_of_map h.perm
      exact ⟨.all ds', .all hperm, (beq_iff _ _).2 (congrArg Restrictor.all hmap)⟩
    | _ => cases h

/-- What is written the same is read as the same. -/
theorem sorted_eq_of_toJson_eq (hr : r.shadowedBuiltin? = none) (hs : s.shadowedBuiltin? = none)
    (h : r.toJson = s.toJson) : r.sorted = s.sorted := by
  have hread := congrArg ofJson h
  rw [ofJson_toJson_eq hr, ofJson_toJson_eq hs] at hread
  exact Except.ok.inj hread

theorem reordered_of_toJson_eq (hr : r.shadowedBuiltin? = none) (hs : s.shadowedBuiltin? = none)
    (h : r.toJson = s.toJson) : Reordered r s := by
  have hsorted := reordered_sorted s
  rw [← sorted_eq_of_toJson_eq hr hs h] at hsorted
  exact (reordered_sorted r).symm.trans hsorted

/-- With a repeated key, the order of the clauses is told as well. -/
theorem toJson_eq_iff (hcs : (all cs).shadowedBuiltin? = none) (hds : (all ds).shadowedBuiltin? = none)
    (hrepeated : ¬(cs.map Clause.key).Nodup) : (all cs).toJson = (all ds).toJson ↔ cs = ds := by
  refine ⟨fun h => ?_, fun h => by rw [h]⟩
  have hperm : cs.Perm ds := (reordered_of_toJson_eq hcs hds h).perm
  have hrepeated' : ¬(ds.map Clause.key).Nodup := mt (hperm.map Clause.key).nodup_iff.2 hrepeated
  have hsorted := sorted_eq_of_toJson_eq hcs hds h
  rwa [sorted, sorted, if_neg hrepeated, if_neg hrepeated', Restrictor.all.injEq] at hsorted

/-- **No clause is lost in writing.** What is written is read back as the clauses that were written, in the
order of their keys unless one is repeated. So restrictors that are written alike have the same clauses, and
with a repeated key in the same order. -/
theorem toJson_lossless (hr : r.shadowedBuiltin? = none) (hs : s.shadowedBuiltin? = none) :
    (ofJson r.toJson = .ok r.sorted ∧ Reordered r.sorted r) ∧
      (r.toJson = s.toJson → Reordered r s) ∧
      ((r.toJson == s.toJson) = true → ∃ s', Reordered s' s ∧ (r == s') = true) ∧
      ∀ cs ds, r = .all cs → s = .all ds → ¬(cs.map Clause.key).Nodup →
        (r.toJson = s.toJson ↔ cs = ds) ∧ ((r.toJson == s.toJson) = true ↔ (cs == ds) = true) := by
  have hr' := (shadowedBuiltin?_standard r).trans hr
  have hs' := (shadowedBuiltin?_standard s).trans hs
  have hequal : (r.toJson == s.toJson) = true ↔ r.standard.toJson = s.standard.toJson := by
    rw [Json.beq_iff, standard_toJson, standard_toJson]
  refine ⟨⟨ofJson_toJson_eq hr, reordered_sorted r⟩, ?_, ?_, ?_⟩
  · exact reordered_of_toJson_eq hr hs
  · exact fun h => (reordered_of_toJson_eq hr' hs' (hequal.1 h)).of_standard
  · rintro cs ds rfl rfl hrepeated
    refine ⟨toJson_eq_iff hr hs hrepeated, ?_⟩
    have hrepeated' : ¬((cs.map Clause.standard).map Clause.key).Nodup := by
      simpa [Function.comp_def] using hrepeated
    rw [hequal, list_beq_iff Clause.beq_iff]
    exact toJson_eq_iff hr' hs' hrepeated'

/-- Two clauses under one key, which differ from the others in the sign of a zero. -/
theorem toJson_lossless_repeated :
    let clauses (zero : Bool) : List Clause :=
      [.custom "rank" (.int 2), .id ⟨⟨1⟩⟩, .custom "rank" (.number (.float (.zero zero)))]
    let r : Restrictor := .all (clauses false)
    let s : Restrictor := .all (clauses true)
    r.shadowedBuiltin? = none ∧ s.shadowedBuiltin? = none ∧ ¬((clauses false).map Clause.key).Nodup ∧
      ofJson r.toJson = .ok r ∧ r.toJson ≠ s.toJson ∧ (r.toJson == s.toJson) = true := by
  intro clauses r s
  have hr : r.shadowedBuiltin? = none := rfl
  have hs : s.shadowedBuiltin? = none := rfl
  have hrepeated : ¬((clauses false).map Clause.key).Nodup := by decide
  obtain ⟨⟨hread, -⟩, -, -, hlossless⟩ := toJson_lossless hr hs
  obtain ⟨hsame, hequal⟩ := hlossless _ _ rfl rfl hrepeated
  have hsorted : r.sorted = r := by rw [sorted, if_neg hrepeated]
  refine ⟨hr, hs, hrepeated, ?_, ?_, hequal.2 ?_⟩
  · rw [hread, hsorted]
  · rw [Ne, hsame]
    simp [clauses, Binary64.zero]
  · rfl

end Restrictor
end PolicyDecision
