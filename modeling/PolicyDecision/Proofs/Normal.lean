import PolicyDecision.Attributes
import PolicyDecision.Document
import PolicyDecision.Proofs.Reading

/-!
# Values in normal form

A value in normal form is the value of its document (`Document.value?_ofJson`), for there is nothing to
put in order. What the program writes is in normal form if the values inside are, which are the arguments
of custom keys and the attributes of documents.
-/

namespace PolicyDecision

/-! ### Fields in order -/

namespace Fields

variable {β : Type} {fields fields' : List (String × β)}

theorem Increasing.pairwise_ne (h : Increasing fields) : fields.Pairwise fun a b => a.1 ≠ b.1 := by
  refine h.imp ?_
  rintro a b hlt heq
  rw [heq] at hlt
  exact String.lt_irrefl _ hlt

theorem Increasing.nodup (h : Increasing fields) : (fields.map Prod.fst).Nodup :=
  List.pairwise_map.2 h.pairwise_ne

/-- There is one order only. -/
theorem Increasing.eq_of_perm (h : Increasing fields) (h' : Increasing fields')
    (hperm : fields.Perm fields') : fields = fields' := by
  refine hperm.eq_of_pairwise ?_ h h'
  intro a b _ _ hab hba
  exact absurd (String.lt_trans hab hba) (String.lt_irrefl _)

/-- Fields in order are kept as they are. -/
theorem Increasing.ofList_eq (h : Increasing fields) : ofList fields = fields :=
  (increasing_ofList fields).eq_of_perm h (perm_ofList h.nodup)

theorem mem_ofList {field : String × β} (h : field ∈ ofList fields) : field ∈ fields := by
  suffices hfold : ∀ kept : List (String × β),
      field ∈ fields.foldl (fun kept field => insert field.1 field.2 kept) kept →
        field ∈ kept ∨ field ∈ fields by
    rcases hfold [] h with hnil | hmem
    · cases hnil
    · exact hmem
  clear h
  induction fields with
  | nil => exact fun kept h => .inl h
  | cons first rest ih =>
    intro kept h
    rw [List.foldl_cons] at h
    rcases ih _ h with hkept | hrest
    · rcases mem_insert hkept with rfl | hkept
      · exact .inr List.mem_cons_self
      · exact .inl hkept
    · exact .inr (List.mem_cons_of_mem first hrest)

/-- Two values under different names may be put there in either order. -/
theorem insert_comm {key key' : String} (hne : key ≠ key') (value value' : β)
    (fields : List (String × β)) :
    insert key value (insert key' value' fields) = insert key' value' (insert key value fields) := by
  have htrans : ∀ a b c : String, a < b → b < c → a < c := fun _ _ _ => String.lt_trans
  have hirrefl : ∀ a : String, ¬a < a := String.lt_irrefl
  have htotal : ∀ a b : String, ¬a < b → ¬b < a → a = b := fun _ _ => eq_of_not_lt
  induction fields with
  | nil => grind [insert]
  | cons field rest ih =>
    obtain ⟨k, v⟩ := field
    grind [insert]

end Fields

namespace Attributes

@[ext] theorem ext {a b : Attributes} (h : a.fields = b.fields) : a = b := by
  cases a
  cases b
  cases h
  rfl

theorem insert_comm {key key' : String} (hne : key ≠ key') (value value' : Json) (a : Attributes) :
    (a.insert key value).insert key' value' = (a.insert key' value').insert key value := by
  simp only [insert, Fields.insert_comm hne.symm]

theorem fields_ofList (fields : List (String × Json)) :
    (ofList fields).fields = Fields.ofList fields :=
  (List.foldl_hom Attributes.fields fun _ _ => rfl).symm

/-- Attributes are given by their fields. -/
theorem ofList_fields (a : Attributes) : ofList a.fields = a := by
  have hfields : (ofList a.fields).fields = a.fields := by
    rw [fields_ofList, a.increasing.ofList_eq]
  exact Attributes.ext hfields

end Attributes

/-! ### Values -/

namespace Json

theorem normalItems_iff {items : List Json} : NormalItems items ↔ ∀ item ∈ items, item.Normal := by
  induction items with
  | nil => simp [NormalItems]
  | cons item items ih => rw [NormalItems, ih, List.forall_mem_cons]

theorem normalFields_iff {fields : List (String × Json)} :
    NormalFields fields ↔ ∀ field ∈ fields, field.2.Normal := by
  induction fields with
  | nil => simp [NormalFields]
  | cons field fields ih => rw [NormalFields, ih, List.forall_mem_cons]

theorem normal_array_iff {items : List Json} : (array items).Normal ↔ ∀ item ∈ items, item.Normal := by
  rw [Normal, normalItems_iff]

theorem normal_array {items : List Json} (h : ∀ item ∈ items, item.Normal) : (array items).Normal :=
  normal_array_iff.2 h

theorem normal_object {fields : List (String × Json)} (hinc : Fields.Increasing fields)
    (h : ∀ field ∈ fields, field.2.Normal) : (object fields).Normal := by
  rw [Normal, normalFields_iff]
  exact ⟨hinc, h⟩

theorem normal_ofFields {fields : List (String × Json)} (h : ∀ field ∈ fields, field.2.Normal) :
    (ofFields fields).Normal :=
  normal_object (Fields.increasing_ofList fields) fun field hfield => h field (Fields.mem_ofList hfield)

theorem normal_single {key : String} {value : Json} (h : value.Normal) : (single key value).Normal :=
  normal_object (List.pairwise_singleton _ _) (by simpa using h)

theorem normal_string (s : String) : (string s).Normal := by
  rw [Normal] <;> simp

theorem normal_bool (b : Bool) : (bool b).Normal := by
  rw [Normal] <;> simp

theorem normal_int (n : Int) : (int n).Normal := by
  rw [int, Normal] <;> simp

theorem normal_strings (names : List String) : (strings names).Normal := by
  apply normal_array
  intro item hitem
  obtain ⟨name, -, rfl⟩ := List.mem_map.1 hitem
  exact normal_string name

mutual

/-- A value in normal form is left as it is. -/
theorem normalize_of_normal : (j : Json) → j.Normal → j.normalize = j
  | .null, _ => by rw [normalize] <;> simp
  | .bool b, _ => by rw [normalize] <;> simp
  | .number n, _ => by rw [normalize] <;> simp
  | .string s, _ => by rw [normalize] <;> simp
  | .array items, h => by
    rw [Normal] at h
    rw [normalize, normalizeItems_of_normal items h]
  | .object fields, h => by
    rw [Normal] at h
    rw [normalize, normalizeFields_of_normal fields h.2, h.1.ofList_eq]

theorem normalizeItems_of_normal : (items : List Json) → NormalItems items → normalizeItems items = items
  | [], _ => by rw [normalizeItems]
  | item :: items, h => by
    rw [NormalItems] at h
    rw [normalizeItems, normalize_of_normal item h.1, normalizeItems_of_normal items h.2]

theorem normalizeFields_of_normal : (fields : List (String × Json)) → NormalFields fields →
    normalizeFields fields = fields
  | [], _ => by rw [normalizeFields]
  | (key, value) :: fields, h => by
    rw [NormalFields] at h
    rw [normalizeFields, normalize_of_normal value h.1, normalizeFields_of_normal fields h.2]

end

mutual

/-- Every value is brought into normal form. -/
theorem normal_normalize : (j : Json) → j.normalize.Normal
  | .null => by rw [normalize, Normal] <;> simp
  | .bool b => by rw [normalize, Normal] <;> simp
  | .number n => by rw [normalize, Normal] <;> simp
  | .string s => by rw [normalize, Normal] <;> simp
  | .array items => by
    rw [normalize]
    exact normal_array (normal_normalizeItems items)
  | .object fields => by
    rw [normalize]
    exact normal_ofFields (normal_normalizeFields fields)

theorem normal_normalizeItems : (items : List Json) → ∀ item ∈ normalizeItems items, item.Normal
  | [] => by simp [normalizeItems]
  | item :: items => by
    rw [normalizeItems, List.forall_mem_cons]
    exact ⟨normal_normalize item, normal_normalizeItems items⟩

theorem normal_normalizeFields : (fields : List (String × Json)) →
    ∀ field ∈ normalizeFields fields, field.2.Normal
  | [] => by simp [normalizeFields]
  | (key, value) :: fields => by
    rw [normalizeFields, List.forall_mem_cons]
    exact ⟨normal_normalize value, normal_normalizeFields fields⟩

end

end Json

/-- The values are in normal form. -/
def Attributes.Normal (a : Attributes) : Prop :=
  ∀ field ∈ a.fields, field.2.Normal

/-! ### Documents of values -/

namespace Document

mutual

theorem raw?_ofJson : (j : Json) → (ofJson j).raw? = some j
  | .null => rfl
  | .bool b => rfl
  | .number n => rfl
  | .string s => rfl
  | .array items => by
    rw [ofJson, raw?, rawItems?_ofItems items]
    rfl
  | .object fields => by
    rw [ofJson, raw?, rawFields?_ofFields fields]
    rfl

theorem rawItems?_ofItems : (items : List Json) → rawItems? (ofItems items) = some items
  | [] => rfl
  | item :: items => by
    rw [ofItems, rawItems?, raw?_ofJson item, rawItems?_ofItems items]
    rfl

theorem rawFields?_ofFields : (fields : List (String × Json)) →
    rawFields? (ofFields fields) = some fields
  | [] => rfl
  | (key, value) :: fields => by
    rw [ofFields, rawFields?, raw?_ofJson value, rawFields?_ofFields fields]
    rfl

end

/-- **A value in normal form is the value of its document.** -/
theorem value?_ofJson {j : Json} (h : j.Normal) : (ofJson j).value? = some j := by
  rw [value?, raw?_ofJson, Option.map_some, Json.normalize_of_normal j h]

/-- Only values in normal form are read. -/
theorem normal_of_value? {d : Document} {j : Json} (h : d.value? = some j) : j.Normal := by
  obtain ⟨raw, -, rfl⟩ := Option.map_eq_some_iff.1 h
  exact Json.normal_normalize raw

end Document

/-! ### What is written of trees -/

/-- The argument of the operator. -/
def CustomKey.arg : CustomKey → Json
  | .clause _ arg | .condition _ arg => arg

/-- The arguments are in normal form. -/
def CustomKey.Normal (keys : List CustomKey) : Prop :=
  ∀ key ∈ keys, key.arg.Normal

theorem Restrictor.normal_toJson {r : Restrictor} (h : CustomKey.Normal r.customKeys) :
    r.toJson.Normal := by
  cases r with
  | wildcard => exact Json.normal_string "*"
  | noOwner => exact Json.normal_string "none"
  | all clauses =>
    have hvalue : ∀ clause ∈ clauses, clause.value.Normal := by
      intro clause hclause
      cases clause with
      | id target => exact Json.normal_string _
      | subOf target => exact Json.normal_string _
      | custom name arg =>
        exact h (.clause name arg) (List.mem_flatMap.2 ⟨_, hclause, List.mem_cons_self⟩)
    rw [toJson]
    split
    · apply Json.normal_ofFields
      intro field hfield
      obtain ⟨clause, hclause, rfl⟩ := List.mem_map.1 hfield
      exact hvalue clause hclause
    · apply Json.normal_array
      intro item hitem
      obtain ⟨clause, hclause, rfl⟩ := List.mem_map.1 hitem
      exact Json.normal_single (hvalue clause hclause)

/-- An object of fields with repeated keys is in normal form if the values are. -/
theorem Tree.normal_objectOf {fields : List (String × Json)} (h : ∀ field ∈ fields, field.2.Normal) :
    (objectOf fields).Normal :=
  objectOf_good (fun _ value => value.Normal) (fun _ => Json.normal_object)
    (fun _ => Json.normal_array_iff) h

theorem Access.normal_toJson (a : Access) : a.toJson.Normal := by
  cases a with
  | one name => exact Json.normal_string name
  | many names => exact Json.normal_strings names

mutual

theorem Condition.normal_value : (c : Condition) → CustomKey.Normal c.customKeys → c.value.Normal
  | .requester r, h => by
    rw [Condition.customKeys] at h
    rw [Condition.value]
    exact Restrictor.normal_toJson h
  | .resourceId id, _ => by
    rw [Condition.value]
    exact Json.normal_string _
  | .access a, _ => by
    rw [Condition.value]
    exact a.normal_toJson
  | .not tree, h => by
    rw [Condition.customKeys] at h
    rw [Condition.value]
    exact Tree.normal_objectOf (Tree.normal_fields tree h)
  | .nor trees, h => by
    rw [Condition.customKeys] at h
    rw [Condition.value]
    exact Json.normal_array (Tree.normal_objects trees h)
  | .or trees, h => by
    rw [Condition.customKeys] at h
    rw [Condition.value]
    exact Json.normal_array (Tree.normal_objects trees h)
  | .and trees, h => by
    rw [Condition.customKeys] at h
    rw [Condition.value]
    exact Json.normal_array (Tree.normal_objects trees h)
  | .custom name arg, h => by
    rw [Condition.customKeys] at h
    rw [Condition.value]
    exact h (.condition name arg) List.mem_cons_self

theorem Tree.normal_fields : (t : Tree) → CustomKey.Normal (Tree.customKeys t) →
    ∀ field ∈ Tree.fields t, field.2.Normal
  | [], _ => by
    rw [Tree.fields]
    simp
  | c :: cs, h => by
    rw [Tree.customKeys] at h
    obtain ⟨hc, hcs⟩ := List.forall_mem_append.1 h
    rw [Tree.fields, List.forall_mem_cons]
    exact ⟨Condition.normal_value c hc, Tree.normal_fields cs hcs⟩

theorem Tree.normal_objects : (ts : List Tree) → CustomKey.Normal (Tree.customKeysOfEach ts) →
    ∀ item ∈ Tree.objects ts, item.Normal
  | [], _ => by
    rw [Tree.objects]
    simp
  | t :: ts, h => by
    rw [Tree.customKeysOfEach] at h
    obtain ⟨ht, hts⟩ := List.forall_mem_append.1 h
    rw [Tree.objects, List.forall_mem_cons]
    exact ⟨Tree.normal_objectOf (Tree.normal_fields t ht), Tree.normal_objects ts hts⟩

end

theorem Tree.normal_toJson {t : Tree} (h : CustomKey.Normal (Tree.customKeys t)) :
    (Tree.toJson t).Normal :=
  normal_objectOf (normal_fields t h)

end PolicyDecision
