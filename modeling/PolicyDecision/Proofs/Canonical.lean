import PolicyDecision.Proofs.Normal
import PolicyDecision.Proofs.Wording

/-!
# Written forms do not change any more

Writing a tree brings it into order: the keys of an object are sorted, the conditions of a repeated key go
under `and`, behind the trees that are there, and the clauses of a restrictor become an object or a list.
Once written, a tree stays as it is: reading the written form and writing it again gives the same value, and
from then on reading gives the same tree (`Tree.toJson_stable`).

A value that is written as what it is read as is called canonical, and so is a field of an object. An object
is canonical if its names are in order and its fields are canonical (`Tree.canonical_object`). So whatever is
written of canonical fields is canonical, since the list under `and` is made of canonical objects
(`Tree.canonical_objectOf`).
-/

namespace PolicyDecision

/-! ### Restrictors -/

namespace Restrictor

/-- A restrictor is read back as one that is written alike. -/
theorem canonical_toJson {r : Restrictor} (h : r.shadowedBuiltin? = none) :
    ∃ r', ofJson r.toJson = .ok r' ∧ r'.toJson = r.toJson := by
  cases r with
  | wildcard => exact ⟨.wildcard, rfl, rfl⟩
  | noOwner => exact ⟨.noOwner, rfl, rfl⟩
  | all clauses =>
    have hclauses : ∀ c ∈ clauses, c.Unshadowed := fun _ => unshadowed_of_mem h
    by_cases hnodup : (clauses.map Clause.key).Nodup
    · obtain ⟨clauses', hperm, hfields, hread⟩ := ofJson_toJson_of_nodup hclauses hnodup
      -- The keys are in order by now, and are written in that order again.
      have hnodup' : (clauses'.map Clause.key).Nodup := (hperm.map Clause.key).nodup_iff.2 hnodup
      refine ⟨.all clauses', hread, ?_⟩
      rw [toJson, toJson, if_pos hnodup, if_pos hnodup', hfields, Json.ofFields, Json.ofFields,
        (Fields.increasing_ofList _).ofList_eq]
    · exact ⟨.all clauses, ofJson_toJson_of_repeated hclauses hnodup, rfl⟩

end Restrictor

/-! ### Canonical values -/

/-- The field is that of the condition it is read as. -/
def Condition.Canonical (key : String) (value : Json) : Prop :=
  ∃ c, Condition.ofField key value = .ok c ∧ c.key = key ∧ c.value = value

namespace Tree

/-- The value is what is written of the tree it is read as. -/
def Canonical (j : Json) : Prop :=
  ∃ t, ofJson j = .ok t ∧ toJson t = j

/-- Fields of distinct names are placed among each other. -/
theorem foldl_place {fields : List (String × Json)} (object : List (String × Json))
    (repeated : List Json) (h : ((object ++ fields).map Prod.fst).Nodup) :
    fields.foldl place (object, repeated) =
      (fields.foldl (fun object field => Fields.insert field.1 field.2 object) object, repeated) := by
  induction fields generalizing object with
  | nil => rfl
  | cons field fields ih =>
    rw [List.foldl_cons, List.foldl_cons, place, Fields.lookup_of_nodup h]
    exact ih _ (Fields.nodup_insert_append h)

/-- Fields of distinct names are written as an object of them. -/
theorem objectOf_of_nodup {fields : List (String × Json)} (h : (fields.map Prod.fst).Nodup) :
    objectOf fields = .ofFields fields := by
  rw [objectOf, foldl_place [] [] h]
  rfl

/-- **An object is canonical if its names are in order and its fields are canonical.** -/
theorem canonical_object {fields : List (String × Json)} (hinc : Fields.Increasing fields)
    (h : ∀ field ∈ fields, Condition.Canonical field.1 field.2) : Canonical (.object fields) := by
  -- The order of the names is needed only where the conditions that were read are written.
  have hread : ∃ t, ReadAs fields t ∧ Tree.fields t = fields := by
    clear hinc
    induction fields with
    | nil => exact ⟨[], .nil, by rw [Tree.fields]⟩
    | cons field fields ih =>
      obtain ⟨⟨c, hc, hkey, hvalue⟩, hfields⟩ := List.forall_mem_cons.1 h
      obtain ⟨t, ht, hwritten⟩ := ih hfields
      exact ⟨c :: t, .cons hc ht, by rw [Tree.fields, hkey, hvalue, hwritten]⟩
  obtain ⟨t, ht, hwritten⟩ := hread
  refine ⟨t, ofJson_object ht, ?_⟩
  rw [toJson, hwritten, objectOf_of_nodup hinc.nodup, Json.ofFields, hinc.ofList_eq]

/-- A list of trees is written as it is read exactly if its items are canonical. -/
theorem canonical_items_iff {items : List Json} :
    (∃ ts, ofItems items = .ok ts ∧ objects ts = items) ↔ ∀ item ∈ items, Canonical item := by
  induction items with
  | nil => exact ⟨fun _ => nofun, fun _ => ⟨[], by rw [ofItems], by rw [objects]⟩⟩
  | cons item items ih =>
    rw [List.forall_mem_cons, ← ih]
    constructor
    · rintro ⟨read, hread, hwritten⟩
      rw [ofItems] at hread
      obtain ⟨t, ht, hread⟩ := bind_eq_ok.1 hread
      obtain ⟨ts, hts, rfl⟩ := bind_pure_eq_ok.1 hread
      rw [objects] at hwritten
      obtain ⟨hitem, hitems⟩ := List.cons.inj hwritten
      exact ⟨⟨t, ht, hitem⟩, ts, hts, hitems⟩
    · rintro ⟨⟨t, ht, hitem⟩, ts, hts, hitems⟩
      refine ⟨t :: ts, ?_, ?_⟩
      · rw [ofItems, ht, hts]
        rfl
      · rw [toJson] at hitem
        rw [objects, hitem, hitems]

/-- A list under `and` is canonical exactly if its items are. -/
theorem canonical_and_iff {items : List Json} :
    Condition.Canonical "and" (.array items) ↔ ∀ item ∈ items, Canonical item := by
  constructor
  · rintro ⟨c, hc, -, hvalue⟩
    obtain ⟨items', ts, heq, hread, rfl⟩ := ofField_and hc
    cases heq
    rw [Condition.value] at hvalue
    exact canonical_items_iff.1 ⟨ts, hread, Json.array.inj hvalue⟩
  · intro h
    obtain ⟨ts, hread, hwritten⟩ := canonical_items_iff.2 h
    exact ⟨.and ts, ofField_and_array hread, rfl, by rw [Condition.value, hwritten]⟩

/-- **What is written of canonical fields is canonical**, repeated names included. -/
theorem canonical_objectOf {fields : List (String × Json)}
    (h : ∀ field ∈ fields, Condition.Canonical field.1 field.2) : Canonical (objectOf fields) :=
  objectOf_good Condition.Canonical (fun _ => canonical_object) (fun _ => canonical_and_iff) h

end Tree

mutual

/-- A condition is written as a canonical field. -/
theorem Condition.canonical_value : (c : Condition) → c.shadowedBuiltin? = none →
    Condition.Canonical c.key c.value
  | .requester r, h => by
    rw [Condition.shadowedBuiltin?] at h
    obtain ⟨r', hread, hwritten⟩ := Restrictor.canonical_toJson h
    refine ⟨.requester r', ?_, rfl, by rw [Condition.value, Condition.value, hwritten]⟩
    rw [Condition.value]
    exact map_eq_ok.2 ⟨r', hread, rfl⟩
  | .resourceId id, _ => by
    refine ⟨.resourceId id, ?_, rfl, rfl⟩
    rw [Condition.value]
    show Condition.resourceOfJson (.string (toString id)) = _
    rw [Condition.resourceOfJson, Id.parse?_toString]
  | .access a, _ => by
    refine ⟨.access a, ?_, rfl, rfl⟩
    rw [Condition.value]
    show Condition.accessOfJson a.toJson = _
    rw [Condition.accessOfJson, Access.ofJson?_toJson]
  | .not tree, h => by
    rw [Condition.shadowedBuiltin?] at h
    obtain ⟨t, hread, hwritten⟩ := Tree.canonical_objectOf (Tree.canonical_fields tree h)
    rw [Tree.toJson] at hwritten
    refine ⟨.not t, ?_, rfl, by rw [Condition.value, Condition.value, hwritten]⟩
    rw [Condition.value]
    exact map_eq_ok.2 ⟨t, hread, rfl⟩
  | .nor trees, h => by
    rw [Condition.shadowedBuiltin?] at h
    obtain ⟨ts, hread, hwritten⟩ := Tree.canonical_items_iff.2 (Tree.canonical_objects trees h)
    refine ⟨.nor ts, ?_, rfl, by rw [Condition.value, Condition.value, hwritten]⟩
    rw [Condition.value]
    exact map_eq_ok.2 ⟨ts, by rw [Tree.listOfJson, hread], rfl⟩
  | .or trees, h => by
    rw [Condition.shadowedBuiltin?] at h
    obtain ⟨ts, hread, hwritten⟩ := Tree.canonical_items_iff.2 (Tree.canonical_objects trees h)
    refine ⟨.or ts, ?_, rfl, by rw [Condition.value, Condition.value, hwritten]⟩
    rw [Condition.value]
    exact map_eq_ok.2 ⟨ts, by rw [Tree.listOfJson, hread], rfl⟩
  | .and trees, h => by
    rw [Condition.shadowedBuiltin?] at h
    rw [Condition.value]
    exact Tree.canonical_and_iff.2 (Tree.canonical_objects trees h)
  | .custom name arg, h => by
    rw [Condition.shadowedBuiltin?, ite_eq_right_iff] at h
    refine ⟨.custom name arg, ?_, rfl, rfl⟩
    rw [Condition.value]
    exact Condition.ofField_custom (fun hname => nomatch h hname) arg

theorem Tree.canonical_fields : (t : Tree) → Tree.shadowedBuiltin? t = none →
    ∀ field ∈ Tree.fields t, Condition.Canonical field.1 field.2
  | [], _ => by
    rw [Tree.fields]
    nofun
  | c :: cs, h => by
    rw [Tree.shadowedBuiltin?, Option.or_eq_none_iff] at h
    rw [Tree.fields]
    exact List.forall_mem_cons.2 ⟨Condition.canonical_value c h.1, Tree.canonical_fields cs h.2⟩

theorem Tree.canonical_objects : (ts : List Tree) → Tree.shadowedBuiltinList? ts = none →
    ∀ item ∈ Tree.objects ts, Tree.Canonical item
  | [], _ => by
    rw [Tree.objects]
    nofun
  | t :: ts, h => by
    rw [Tree.shadowedBuiltinList?, Option.or_eq_none_iff] at h
    rw [Tree.objects]
    exact List.forall_mem_cons.2
      ⟨Tree.canonical_objectOf (Tree.canonical_fields t h.1), Tree.canonical_objects ts h.2⟩

end

/-- **A tree is written as a canonical value** if no custom key is named like a built-in one. -/
theorem Tree.canonical_toJson {t : Tree} (h : Tree.shadowedBuiltin? t = none) :
    Tree.Canonical (Tree.toJson t) :=
  Tree.canonical_objectOf (Tree.canonical_fields t h)

/-! ### What is read has no shadowing key -/

namespace Restrictor

mutual

/-- A clause that a text says is not a custom one named like a built-in key. -/
theorem met_unshadowed : (v : Json) → Met (fun _ => True) v → Met Clause.Unshadowed v
  | .null, h => h
  | .bool _, h => h
  | .number _, h => h
  | .string _, h => h
  | .object fields, h => by
    rw [Met] at h ⊢
    intro field hfield
    have hmet := h field hfield
    rw [FieldMet] at hmet ⊢
    split_ifs at hmet ⊢ with hid hsubof
    · simpa [Clause.Unshadowed] using hmet
    · simpa [Clause.Unshadowed] using hmet
    · simp [Clause.Unshadowed, Clause.builtins, hid, hsubof]
  | .array items, h => by
    rw [Met] at h ⊢
    exact eachMet_unshadowed items h

theorem eachMet_unshadowed : (items : List Json) → EachMet (fun _ => True) items →
    EachMet Clause.Unshadowed items
  | [], h => h
  | item :: items, h => by
    rw [EachMet] at h ⊢
    exact ⟨met_unshadowed item h.1, eachMet_unshadowed items h.2⟩

end

/-- No restrictor is read with a custom clause named like a built-in key. -/
theorem unshadowed_of_ofJson {v : Json} {r : Restrictor} (h : ofJson v = .ok r) :
    r.shadowedBuiltin? = none := by
  cases r with
  | wildcard => rfl
  | noOwner => rfl
  | all clauses =>
    -- What is read accepts if the text is met, whichever clauses are. Let all of them be, and then these.
    have hmet : Met (fun _ => True) v := (accepts_iff_met _ v h).1 fun _ _ => trivial
    have hclauses : ∀ c ∈ clauses, c.Unshadowed := (accepts_iff_met _ v h).2 (met_unshadowed v hmet)
    rw [shadowedBuiltin?, List.findSome?_eq_none_iff]
    intro clause hclause
    cases clause with
    | id target => rfl
    | subOf target => rfl
    | custom name arg => exact if_neg (hclauses _ hclause name arg rfl)

end Restrictor

/-- What is read under a key has no shadowing key if the trees below have none. -/
theorem Condition.unshadowed_of_ofField {key : String} {value : Json} {c : Condition}
    (htree : ∀ t, Tree.ofJson value = .ok t → Tree.shadowedBuiltin? t = none)
    (htrees : ∀ ts, Tree.listOfJson key value = .ok ts → Tree.shadowedBuiltinList? ts = none)
    (h : Condition.ofField key value = .ok c) : c.shadowedBuiltin? = none := by
  by_cases hkey : key ∈ Condition.builtins
  · simp only [Condition.builtins, List.mem_cons, List.not_mem_nil, or_false] at hkey
    rcases hkey with rfl | rfl | rfl | rfl | rfl | rfl | rfl
    · obtain ⟨r, hr, rfl⟩ := map_eq_ok.1 h
      rw [Condition.shadowedBuiltin?, Restrictor.unshadowed_of_ofJson hr]
    · have h : Condition.resourceOfJson value = .ok c := h
      unfold Condition.resourceOfJson at h
      split at h
      · split at h
        · cases h
          rw [Condition.shadowedBuiltin?] <;> simp
        · cases h
      · cases h
    · have h : Condition.accessOfJson value = .ok c := h
      unfold Condition.accessOfJson at h
      split at h
      · cases h
        rw [Condition.shadowedBuiltin?] <;> simp
      · cases h
    · obtain ⟨t, ht, rfl⟩ := map_eq_ok.1 h
      rw [Condition.shadowedBuiltin?, htree t ht]
    · obtain ⟨ts, hts, rfl⟩ := map_eq_ok.1 h
      rw [Condition.shadowedBuiltin?, htrees ts hts]
    · obtain ⟨ts, hts, rfl⟩ := map_eq_ok.1 h
      rw [Condition.shadowedBuiltin?, htrees ts hts]
    · obtain ⟨ts, hts, rfl⟩ := map_eq_ok.1 h
      rw [Condition.shadowedBuiltin?, htrees ts hts]
  · rw [Condition.ofField_custom hkey] at h
    cases h
    rw [Condition.shadowedBuiltin?, if_neg hkey]

mutual

/-- **No tree is read with a custom key named like a built-in one.** -/
theorem Tree.unshadowed_of_ofJson : (j : Json) → (t : Tree) → Tree.ofJson j = .ok t →
    Tree.shadowedBuiltin? t = none
  | .null, t, h => by
    rw [Tree.ofJson] at h
    cases h
    rw [Tree.shadowedBuiltin?]
  | .bool b, t, h => by simp [Tree.ofJson] at h
  | .number n, t, h => by simp [Tree.ofJson] at h
  | .string s, t, h => by simp [Tree.ofJson] at h
  | .array items, t, h => by simp [Tree.ofJson] at h
  | .object fields, t, h => by
    rw [Tree.ofJson] at h
    exact Tree.unshadowed_of_ofFields fields t h

theorem Tree.unshadowed_of_ofFields : (fields : List (String × Json)) → (t : Tree) →
    Tree.ofFields fields = .ok t → Tree.shadowedBuiltin? t = none
  | [], t, h => by
    rw [Tree.ofFields] at h
    cases h
    rw [Tree.shadowedBuiltin?]
  | (key, value) :: fields, t, h => by
    rw [Tree.ofFields_cons] at h
    obtain ⟨c, hc, h⟩ := bind_eq_ok.1 h
    obtain ⟨cs, hcs, rfl⟩ := bind_pure_eq_ok.1 h
    have hcondition : c.shadowedBuiltin? = none := Condition.unshadowed_of_ofField
      (Tree.unshadowed_of_ofJson value) (Tree.unshadowed_of_listOfJson key value) hc
    rw [Tree.shadowedBuiltin?, hcondition, Tree.unshadowed_of_ofFields fields cs hcs]
    rfl

theorem Tree.unshadowed_of_listOfJson (key : String) : (j : Json) → (ts : List Tree) →
    Tree.listOfJson key j = .ok ts → Tree.shadowedBuiltinList? ts = none
  | .null, t, h => by simp [Tree.listOfJson] at h
  | .bool b, t, h => by simp [Tree.listOfJson] at h
  | .number n, t, h => by simp [Tree.listOfJson] at h
  | .string s, t, h => by simp [Tree.listOfJson] at h
  | .object fields, t, h => by simp [Tree.listOfJson] at h
  | .array items, ts, h => by
    rw [Tree.listOfJson] at h
    exact Tree.unshadowed_of_ofItems items ts h

theorem Tree.unshadowed_of_ofItems : (items : List Json) → (ts : List Tree) →
    Tree.ofItems items = .ok ts → Tree.shadowedBuiltinList? ts = none
  | [], ts, h => by
    rw [Tree.ofItems] at h
    cases h
    rw [Tree.shadowedBuiltinList?]
  | item :: items, ts, h => by
    rw [Tree.ofItems] at h
    obtain ⟨t, ht, h⟩ := bind_eq_ok.1 h
    obtain ⟨rest, hrest, rfl⟩ := bind_pure_eq_ok.1 h
    rw [Tree.shadowedBuiltinList?, Tree.unshadowed_of_ofJson item t ht,
      Tree.unshadowed_of_ofItems items rest hrest]
    rfl

end

/-! ### The written form of a tree -/

/-- **The written form of a tree does not change any more** once it is read and written again, if the tree
was read itself or has no custom key named like a built-in one. The tree that is read then stays as well. -/
theorem Tree.toJson_stable (t : Tree)
    (h : (∃ j, Tree.ofJson j = .ok t) ∨ Tree.shadowedBuiltin? t = none) :
    ∃ u, Tree.ofJson (Tree.toJson t) = .ok u ∧ Tree.toJson u = Tree.toJson t ∧
      (Tree.toJson u).compact = (Tree.toJson t).compact ∧ Tree.ofJson (Tree.toJson u) = .ok u := by
  have hunshadowed : Tree.shadowedBuiltin? t = none := by
    rcases h with ⟨j, hread⟩ | hunshadowed
    · exact Tree.unshadowed_of_ofJson j t hread
    · exact hunshadowed
  obtain ⟨u, hread, hwritten⟩ := Tree.canonical_toJson hunshadowed
  exact ⟨u, hread, hwritten, by rw [hwritten], by rw [hwritten, hread]⟩

/-- Repeated keys go behind the trees under `and`, and of a restrictor with a repeated key into a list. -/
theorem Tree.toJson_stable_repeated :
    let flag (name : String) : Condition := .custom name .null
    let badges : Restrictor := .all [.custom "badge" (.int 2), .custom "badge" (.int 1)]
    let ranks : Restrictor := .all [.custom "rank" (.int 2), .custom "badge" (.int 1)]
    let t : Tree := [flag "weekend", .not [.requester badges], .and [[flag "open", flag "day"]],
      .not [.requester ranks], .access (.one "read")]
    let written : Json := .object
      [("access", .string "read"),
       ("and", .array [.object [("day", .null), ("open", .null)],
          .single "not" (.single "requester" (.object [("badge", .int 1), ("rank", .int 2)]))]),
       ("not", .single "requester" (.array [.single "badge" (.int 2), .single "badge" (.int 1)])),
       ("weekend", .null)]
    Tree.shadowedBuiltin? t = none ∧ Tree.toJson t = written ∧
      ∃ u, Tree.ofJson written = .ok u ∧ Tree.toJson u = written ∧
        (Tree.toJson u).compact = written.compact ∧ Tree.ofJson (Tree.toJson u) = .ok u := by
  intro flag badges ranks t written
  have hunshadowed : Tree.shadowedBuiltin? t = none := rfl
  have hwritten : Tree.toJson t = written := by
    simp only [t, flag, badges, ranks, written]
    rfl
  have hstable := Tree.toJson_stable t (.inr hunshadowed)
  rw [hwritten] at hstable
  exact ⟨hunshadowed, hwritten, hstable⟩

end PolicyDecision
