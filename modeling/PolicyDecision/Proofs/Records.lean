import PolicyDecision.Entity
import PolicyDecision.Proofs.Normal
import PolicyDecision.Resource

/-!
# Records that are read back

A record is written as an object, which has its fields in the order of their names, and read field by
field in that order. If what reading one field does to the draft does not interfere with what reading
another does, then the order makes no difference, and the record may be taken to be read in the order in
which its fields were given (`Document.asRecord_ofFields`, `Document.asOpenRecord_ofFields`).

Entities and resources are read back as they were, if no attribute is named like a field
(`Entity.decode_toJson`, `Resource.decode_toJson`).
-/

namespace PolicyDecision

/-! ### Fields -/

namespace Document

variable {δ : Type}

/-- A field as it is written, and what reading it does to a draft. -/
structure Entry (δ : Type) where
  name : String
  value : Json
  update : δ → δ

/-- Read one field into a draft. -/
def readField (columns : List (Column δ)) (other : δ → String → Document → Decoded δ) (draft : δ)
    (key : String) (part : Document) : Decoded δ :=
  match columns.find? (·.name = key) with
  | some column => column.read draft part
  | none => other draft key part

namespace Entry

def field (entry : Entry δ) : String × Json :=
  (entry.name, entry.value)

/-- Reading the field updates the draft. -/
def ReadBy (columns : List (Column δ)) (other : δ → String → Document → Decoded δ)
    (entry : Entry δ) : Prop :=
  ∀ draft, readField columns other draft entry.name (ofJson entry.value) = .ok (entry.update draft)

/-- It makes no difference which of the two fields is read first. -/
def Commute (a b : Entry δ) : Prop :=
  ∀ draft, a.update (b.update draft) = b.update (a.update draft)

/-- The draft after these fields. -/
def updates (entries : List (Entry δ)) (draft : δ) : δ :=
  entries.foldl (fun draft entry => entry.update draft) draft

end Entry

variable {columns : List (Column δ)} {other : δ → String → Document → Decoded δ}
  {entries : List (Entry δ)}

/-- Fields of distinct names are read one after the other. -/
theorem readFields_entries {seen : List String} (hnodup : (entries.map Entry.name).Nodup)
    (hseen : ∀ entry ∈ entries, entry.name ∉ seen)
    (hread : ∀ entry ∈ entries, entry.ReadBy columns other) (draft : δ) :
    readFields columns other seen draft (ofFields (entries.map Entry.field)) =
      .ok (Entry.updates entries draft) := by
  induction entries generalizing seen draft with
  | nil => rfl
  | cons entry entries ih =>
    obtain ⟨hnew, hnodup⟩ := List.nodup_cons.1 hnodup
    obtain ⟨hfirst, hread⟩ := List.forall_mem_cons.1 hread
    obtain ⟨hunseen, hseen⟩ := List.forall_mem_cons.1 hseen
    have hdistinct : ∀ other ∈ entries, other.name ≠ entry.name := by
      intro other hother heq
      exact hnew (heq ▸ List.mem_map_of_mem hother)
    specialize hfirst draft
    rw [List.map_cons, Entry.field, ofFields, readFields]
    rw [readField] at hfirst
    cases hcolumn : columns.find? (·.name = entry.name) with
    | none =>
      simp only [hcolumn] at hfirst ⊢
      rw [hfirst]
      exact ih hnodup hseen hread _
    | some column =>
      simp only [hcolumn] at hfirst ⊢
      rw [if_neg hunseen, hfirst]
      refine ih hnodup (fun other hother hmem => ?_) hread _
      rcases List.mem_cons.1 hmem with heq | hmem
      · exact hdistinct other hother heq
      · exact hseen other hother hmem

/-- **The order of the fields of an object makes no difference**, if they do not interfere. -/
theorem readFields_ofList (hnodup : (entries.map Entry.name).Nodup)
    (hread : ∀ entry ∈ entries, entry.ReadBy columns other) (hcommute : entries.Pairwise Entry.Commute)
    (draft : δ) :
    readFields columns other [] draft (ofFields (Fields.ofList (entries.map Entry.field))) =
      .ok (Entry.updates entries draft) := by
  have hnames : ((entries.map Entry.field).map Prod.fst).Nodup := by
    rwa [List.map_map]
  obtain ⟨entries', hperm, hfields⟩ := exists_perm_of_map (Fields.perm_ofList hnames)
  -- The fields are read in the order of their names, which is some order of the given ones.
  have hsymm : Std.Symm (Entry.Commute (δ := δ)) := ⟨fun a b h draft => (h draft).symm⟩
  have hforall : ∀ a ∈ entries, ∀ b ∈ entries, Entry.Commute a b :=
    hcommute.forall_of_forall fun entry _ draft => rfl
  rw [hfields, readFields_entries ((hperm.map Entry.name).nodup_iff.2 hnodup) (by simp)
    fun entry hentry => hread entry (hperm.mem_iff.1 hentry)]
  refine congrArg Except.ok (hperm.foldl_eq' (fun a ha b hb draft => ?_) draft)
  exact hforall b (hperm.mem_iff.1 hb) a (hperm.mem_iff.1 ha) draft

/-- Pass over a field that is no column. -/
def passOver (draft : δ) (_key : String) (part : Document) : Decoded δ := do
  part.skip
  return draft

/-- A record is read from an object as if its fields were in the order in which they were given. -/
theorem asRecord_ofFields (source : Source) (hnodup : (entries.map Entry.name).Nodup)
    (hread : ∀ entry ∈ entries, entry.ReadBy columns passOver)
    (hcommute : entries.Pairwise Entry.Commute) (empty : δ) :
    (ofJson (.ofFields (entries.map Entry.field))).asRecord source columns empty =
      .ok (Entry.updates entries empty, .fields) := by
  have hfields := readFields_ofList hnodup hread hcommute empty
  rw [Json.ofFields, ofJson, asRecord]
  show (do
    let draft ← readFields columns passOver [] empty _
    if true then .ok (draft, Form.fields) else .error .malformed) = _
  rw [hfields]
  rfl

theorem asOpenRecord_ofFields (hnodup : (entries.map Entry.name).Nodup)
    (hread : ∀ entry ∈ entries, entry.ReadBy columns other)
    (hcommute : entries.Pairwise Entry.Commute) (empty : δ) :
    (ofJson (.ofFields (entries.map Entry.field))).asOpenRecord columns empty other =
      .ok (Entry.updates entries empty) := by
  rw [Json.ofFields, ofJson, asOpenRecord, readFields_ofList hnodup hread hcommute]
  rfl

/-! ### Values -/

theorem asJson_ofJson {j : Json} (h : j.Normal) : (ofJson j).asJson = .ok j := by
  rw [asJson, value?_ofJson h]

theorem asId_ofJson {kind : Kind} (id : Id kind) :
    (ofJson (.string (toString id))).asId kind = .ok id := by
  rw [ofJson, asId, asString]
  simp only [bind, Except.bind, Id.parse?_toString]

/-- What is read back of each item is read back of a list. -/
theorem asList_ofJson {α β : Type} {decode : Document → Decoded α} (write : β → Json)
    (R : α → β → Prop) {items : List β}
    (h : ∀ item ∈ items, ∃ a, decode (ofJson (write item)) = .ok a ∧ R a item) :
    ∃ as, (ofJson (.array (items.map write))).asList decode = .ok as ∧ List.Forall₂ R as items := by
  have hitems : ∃ as, (ofItems (items.map write)).mapM decode = .ok as ∧ List.Forall₂ R as items := by
    induction items with
    | nil => exact ⟨[], rfl, .nil⟩
    | cons item items ih =>
      obtain ⟨hfirst, hrest⟩ := List.forall_mem_cons.1 h
      obtain ⟨a, hread, ha⟩ := hfirst
      obtain ⟨as, hreads, has⟩ := ih hrest
      refine ⟨a :: as, ?_, .cons ha has⟩
      rw [List.map_cons, ofItems, List.mapM_cons, hread, hreads]
      rfl
  obtain ⟨as, hreads, has⟩ := hitems
  refine ⟨as, ?_, has⟩
  rw [ofJson, asList, hreads]
  rfl

theorem asIdSet_ofJson {kind : Kind} (ids : IdSet kind) :
    (ofJson (.strings (ids.toList.map toString))).asIdSet kind = .ok ids := by
  obtain ⟨read, hread, hsame⟩ := asList_ofJson (fun id => .string (toString id)) Eq
    fun id (_ : id ∈ ids.toList) => ⟨id, asId_ofJson id, rfl⟩
  rw [List.forall₂_eq_eq_eq] at hsame
  have hwritten : Json.strings (ids.toList.map toString) =
      .array (ids.toList.map fun id => .string (toString id)) := by
    rw [Json.strings, List.map_map]
    rfl
  rw [asIdSet, hwritten, hread, hsame]
  refine congrArg Except.ok (IdSet.ext fun id => ?_)
  exact IdSet.mem_ofList

/-! ### Records with attributes -/

section Attributes

variable (add : δ → String → Json → δ)

/-- A field that becomes an attribute. -/
def Entry.attribute (field : String × Json) : Entry δ :=
  ⟨field.1, field.2, fun draft => add draft field.1 field.2⟩

theorem Entry.readBy_attribute {add : δ → String → Json → δ} {field : String × Json}
    (hother : ∀ draft key part, other draft key part = (do return add draft key (← part.asJson)))
    (hnormal : field.2.Normal) (hname : ∀ column ∈ columns, column.name ≠ field.1) :
    (Entry.attribute add field).ReadBy columns other := by
  intro draft
  have hnone : columns.find? (·.name = field.1) = none := by
    rw [List.find?_eq_none]
    intro column hmem
    simpa using hname column hmem
  show readField columns other draft field.1 (ofJson field.2) = .ok (add draft field.1 field.2)
  rw [readField, hnone, hother, asJson_ofJson hnormal]
  rfl

/-- Attributes that are added to a draft with none are those of the draft then. -/
theorem foldl_add (set : Attributes → δ)
    (hset : ∀ a key value, add (set a) key value = set (a.insert key value)) (attributes : Attributes) :
    attributes.fields.foldl (fun draft field => add draft field.1 field.2) (set .empty) =
      set attributes := by
  rw [List.foldl_hom set fun a field => hset a field.1 field.2]
  exact congrArg set attributes.ofList_fields

/-- **A record with attributes** is read back as its own fields, with these attributes set, if no
attribute is named like a column and none interferes with another or with a field. -/
theorem asOpenRecord_attributes {own : List (Entry δ)} {attributes : Attributes} {empty : δ}
    (set : Attributes → δ) (hset : ∀ a key value, add (set a) key value = set (a.insert key value))
    (hempty : Entry.updates own empty = set .empty)
    (hother : ∀ draft key part, other draft key part = (do return add draft key (← part.asJson)))
    (hadd : ∀ draft key key' value value', key ≠ key' →
      add (add draft key value) key' value' = add (add draft key' value') key value)
    (hnodup : (own.map Entry.name).Nodup) (hcolumn : ∀ entry ∈ own, ∃ c ∈ columns, c.name = entry.name)
    (hread : ∀ entry ∈ own, entry.ReadBy columns other) (hcommute : own.Pairwise Entry.Commute)
    (hapart : ∀ entry ∈ own, ∀ draft key value,
      entry.update (add draft key value) = add (entry.update draft) key value)
    (hnormal : attributes.Normal) (hplain : ∀ column ∈ columns, attributes.get? column.name = none) :
    (ofJson (.ofFields (own.map Entry.field ++ attributes.fields))).asOpenRecord columns empty other =
      .ok (set attributes) := by
  have hnames : ∀ field ∈ attributes.fields, ∀ column ∈ columns, column.name ≠ field.1 := by
    intro field hfield column hcolumn
    have hother := List.lookup_eq_none_iff.1 (hplain column hcolumn) field hfield
    simpa using hother
  have hfields : own.map Entry.field ++ attributes.fields =
      (own ++ attributes.fields.map (Entry.attribute add)).map Entry.field := by
    rw [List.map_append, List.map_map]
    exact congrArg _ (List.map_id attributes.fields).symm
  -- Own fields first and attributes after them, in their order, is one order of the same fields.
  have hupdates : Entry.updates (own ++ attributes.fields.map (Entry.attribute add)) empty =
      set attributes := by
    rw [← foldl_add add set hset, ← hempty, Entry.updates, List.foldl_append, List.foldl_map]
    rfl
  rw [hfields, asOpenRecord_ofFields, hupdates]
  · rw [List.map_append, List.map_map, List.nodup_append]
    refine ⟨hnodup, attributes.increasing.nodup, ?_⟩
    intro name hown name' hadded heq
    obtain ⟨entry, hentry, rfl⟩ := List.mem_map.1 hown
    obtain ⟨field, hfield, rfl⟩ := List.mem_map.1 hadded
    obtain ⟨column, hmem, hname⟩ := hcolumn entry hentry
    exact hnames field hfield column hmem (hname.trans heq)
  · rw [List.forall_mem_append]
    refine ⟨hread, fun added hadded => ?_⟩
    obtain ⟨field, hfield, rfl⟩ := List.mem_map.1 hadded
    exact Entry.readBy_attribute hother (hnormal field hfield) (hnames field hfield)
  · rw [List.pairwise_append]
    refine ⟨hcommute, ?_, ?_⟩
    · rw [List.pairwise_map]
      refine attributes.increasing.pairwise_ne.imp ?_
      intro a b hne draft
      exact hadd draft b.1 a.1 b.2 a.2 hne.symm
    · intro entry hentry added hadded draft
      obtain ⟨field, -, rfl⟩ := List.mem_map.1 hadded
      exact hapart entry hentry draft field.1 field.2

end Attributes

end Document

/-! ### Entities -/

namespace Entity

/-- No attribute is named like a field. -/
def Plain (e : Entity) : Prop :=
  ∀ column ∈ columns, e.attributes.get? column.name = none

/-- The fields of an entity, without the attributes. -/
def own (e : Entity) : List (Document.Entry Draft) :=
  [⟨"id", .string (toString e.id), fun draft => { draft with id := some e.id }⟩,
   ⟨"parents", .strings (e.parents.toList.map toString),
    fun draft => { draft with parents := some e.parents }⟩]

def Draft.add (draft : Draft) (key : String) (value : Json) : Draft :=
  { draft with attributes := draft.attributes.insert key value }

theorem readBy_own (e : Entity) : ∀ entry ∈ e.own, entry.ReadBy columns Draft.addAttribute := by
  simp only [own, List.forall_mem_cons, List.not_mem_nil, false_implies, implies_true, and_true]
  constructor
  · intro draft
    show (do return { draft with id := some (← (Document.ofJson _).asId .entity) }) = _
    rw [Document.asId_ofJson]
    rfl
  · intro draft
    show (do return { draft with parents := some (← (Document.ofJson _).asIdSet .entity) }) = _
    rw [Document.asIdSet_ofJson]
    rfl

/-- **An entity is read back as it was.** -/
theorem decode_toJson {e : Entity} (hplain : e.Plain) (hnormal : e.attributes.Normal) :
    decode (.ofJson e.toJson) = .ok e := by
  have hwritten : e.toJson = .ofFields (e.own.map Document.Entry.field ++ e.attributes.fields) := rfl
  let draft (attributes : Attributes) : Draft :=
    { id := some e.id, parents := some e.parents, attributes }
  have hread : (Document.ofJson e.toJson).asOpenRecord columns {} Draft.addAttribute =
      .ok (draft e.attributes) := by
    rw [hwritten]
    apply Document.asOpenRecord_attributes Draft.add draft
    · exact fun _ _ _ => rfl
    · rfl
    · exact fun _ _ _ => rfl
    · intro draft key key' value value' hne
      simp only [Draft.add, Attributes.insert_comm hne]
    · simp [own]
    · simp [own, columns]
    · exact e.readBy_own
    · simp [own, Document.Entry.Commute]
    · simp [own, Draft.add]
    · exact hnormal
    · exact hplain
  rw [decode, hread]
  rfl

theorem normal_toJson {e : Entity} (h : e.attributes.Normal) : e.toJson.Normal := by
  apply Json.normal_ofFields
  simp only [List.forall_mem_cons]
  exact ⟨Json.normal_string _, Json.normal_strings _, h⟩

end Entity

/-! ### Resources -/

namespace Resource

/-- No attribute is named like a field. -/
def Plain (r : Resource) : Prop :=
  ∀ column ∈ columns, r.attributes.get? column.name = none

/-- The fields of a resource, without the attributes. -/
def own (r : Resource) : List (Document.Entry Draft) :=
  ⟨"id", .string (toString r.id), fun draft => { draft with id := some r.id }⟩ ::
  (match r.owner with
    | some owner =>
      [⟨"owner", .string (toString owner), fun draft => { draft with owner := some (some owner) }⟩]
    | none => []) ++
  [⟨"type", .string r.type, fun draft => { draft with type := some r.type }⟩,
   ⟨"boundPolicies", .strings (r.boundPolicies.toList.map toString),
    fun draft => { draft with boundPolicies := some r.boundPolicies }⟩]

def Draft.add (draft : Draft) (key : String) (value : Json) : Draft :=
  { draft with attributes := draft.attributes.insert key value }

theorem readBy_own (r : Resource) : ∀ entry ∈ r.own, entry.ReadBy columns Draft.addAttribute := by
  have hid : Document.Entry.ReadBy columns Draft.addAttribute
      ⟨"id", .string (toString r.id), fun draft => { draft with id := some r.id }⟩ := by
    intro draft
    show (do return { draft with id := some (← (Document.ofJson _).asId .resource) }) = _
    rw [Document.asId_ofJson]
    rfl
  have howner : ∀ owner : EntityId, Document.Entry.ReadBy columns Draft.addAttribute
      ⟨"owner", .string (toString owner), fun draft => { draft with owner := some (some owner) }⟩ := by
    intro owner draft
    show (do return { draft with owner := some (← some <$> (Document.ofJson _).asId .entity) }) = _
    rw [Document.asId_ofJson]
    rfl
  have htype : Document.Entry.ReadBy columns Draft.addAttribute
      ⟨"type", .string r.type, fun draft => { draft with type := some r.type }⟩ :=
    fun draft => rfl
  have hbound : Document.Entry.ReadBy columns Draft.addAttribute
      ⟨"boundPolicies", .strings (r.boundPolicies.toList.map toString),
        fun draft => { draft with boundPolicies := some r.boundPolicies }⟩ := by
    intro draft
    show (do return { draft with boundPolicies := some (← (Document.ofJson _).asIdSet .policy) }) = _
    rw [Document.asIdSet_ofJson]
    rfl
  rw [own]
  cases r.owner with
  | none => simpa using ⟨hid, htype, hbound⟩
  | some owner => simpa using ⟨hid, howner owner, htype, hbound⟩

/-- **A resource is read back as it was.** -/
theorem decode_toJson {r : Resource} (hplain : r.Plain) (hnormal : r.attributes.Normal) :
    decode (.ofJson r.toJson) = .ok r := by
  have hwritten : r.toJson = .ofFields (r.own.map Document.Entry.field ++ r.attributes.fields) := by
    rw [toJson, own]
    cases r.owner <;> rfl
  let draft (attributes : Attributes) : Draft :=
    { id := some r.id, owner := r.owner.map some, type := some r.type,
      boundPolicies := some r.boundPolicies, attributes }
  have hread : (Document.ofJson r.toJson).asOpenRecord columns {} Draft.addAttribute =
      .ok (draft r.attributes) := by
    rw [hwritten]
    apply Document.asOpenRecord_attributes Draft.add draft
    · exact fun _ _ _ => rfl
    · rw [own]
      cases howner : r.owner <;> simp only [draft, howner] <;> rfl
    · exact fun _ _ _ => rfl
    · intro draft key key' value value' hne
      simp only [Draft.add, Attributes.insert_comm hne]
    · rw [own]
      cases r.owner <;> simp
    · rw [own]
      cases r.owner <;> simp [columns]
    · exact r.readBy_own
    · rw [own]
      cases r.owner <;> simp [Document.Entry.Commute]
    · rw [own]
      cases r.owner <;> simp [Draft.add]
    · exact hnormal
    · exact hplain
  have howner : (r.owner.map some).getD none = r.owner := by
    cases r.owner <;> rfl
  rw [decode, hread]
  show Except.ok { r with owner := (r.owner.map some).getD none } = _
  rw [howner]

theorem normal_toJson {r : Resource} (h : r.attributes.Normal) : r.toJson.Normal := by
  apply Json.normal_ofFields
  rw [List.cons_append, List.forall_mem_cons, List.forall_mem_append]
  refine ⟨Json.normal_string _, ?_, ?_⟩
  · cases r.owner with
    | none => simp
    | some owner => simpa using Json.normal_string (toString owner)
  · simp only [List.forall_mem_cons]
    exact ⟨Json.normal_string _, Json.normal_strings _, h⟩

end Resource
end PolicyDecision
