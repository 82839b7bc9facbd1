import PolicyDecision.Proofs.Told

/-!
# The flattened form

The attributes of an entity or a resource stand beside its fields in one object. The object is divided by
the names of the fields, and it is put together by the same names, so that nothing is lost and nothing
becomes another part of the record, provided that no attribute is named like a field.

No record that is read has such an attribute, and no record that is built has one unless it is given one.
Either is written and read back as it was (`attributes_flattened`).
-/

namespace PolicyDecision

/-- **The flattened form** of a record whose fields have these names: no attribute is named like a field,
so they are the other fields of the object that is written, which is read back as the same record. -/
structure Flattened {α : Type} (names : List String) (attributes : α → Attributes) (toJson : α → Json)
    (decode : Source → Document → Decoded α) (a : α) : Prop where
  plain : ∀ name ∈ names, (attributes a).get? name = none
  written : ∃ fields, toJson a = .object fields ∧
    fields.filter (fun field => field.1 ∉ names) = (attributes a).fields
  reread : (toJson a).decode decode = .ok a

/-! ### Attributes beside fields -/

/-- The attributes may stand beside fields of these names. -/
structure Attributes.Apart (names : List String) (a : Attributes) : Prop where
  plain : ∀ name ∈ names, a.get? name = none
  normal : a.Normal

namespace Attributes

variable {names : List String} {a : Attributes}

theorem apart_empty : Apart names .empty :=
  ⟨fun _ _ => rfl, List.forall_mem_nil _⟩

theorem Apart.insert (h : a.Apart names) {key : String} {value : Json} (hkey : key ∉ names)
    (hvalue : value.Normal) : (a.insert key value).Apart names where
  plain name hname := by
    rw [get?_insert, if_neg (ne_of_mem_of_not_mem hname hkey)]
    exact h.plain name hname
  normal field hfield := by
    rcases Fields.mem_insert hfield with rfl | hfield
    · exact hvalue
    · exact h.normal field hfield

/-- What is left of an object without the fields stands apart from them. -/
theorem apart_of_filter {fields : List (String × Json)} (hnormal : (Json.object fields).Normal)
    (h : a.fields = fields.filter fun field => field.1 ∉ names) : a.Apart names where
  plain name hname := by
    rw [get?, h, List.lookup_eq_none_iff]
    intro field hfield
    have hother : field.1 ∉ names := by simpa using (List.mem_filter.1 hfield).2
    simpa using ne_of_mem_of_not_mem hname hother
  normal field hfield := by
    rw [Json.Normal, Json.normalFields_iff] at hnormal
    rw [h] at hfield
    exact hnormal.2 field (List.mem_filter.1 hfield).1

/-- The attributes are what is left of the object that is written without the fields. -/
theorem Apart.filter_ofList (h : a.Apart names) {own : List (String × Json)}
    (hown : ∀ field ∈ own, field.1 ∈ names) :
    (Fields.ofList (own ++ a.fields)).filter (fun field => field.1 ∉ names) = a.fields := by
  have hdropped : own.filter (fun field => field.1 ∉ names) = [] := by
    rw [List.filter_eq_nil_iff]
    intro field hfield
    simpa using hown field hfield
  have hkept : a.fields.filter (fun field => field.1 ∉ names) = a.fields := by
    rw [List.filter_eq_self]
    intro field hfield
    have hother : field.1 ∉ names := by
      intro hname
      have hnone := List.lookup_eq_none_iff.1 (h.plain field.1 hname) field hfield
      simp at hnone
    simpa using hother
  rw [Fields.filter_ofList (fun key => key ∉ names), List.filter_append, hdropped, hkept]
  exact a.increasing.ofList_eq

end Attributes

/-! ### Entities -/

namespace Entity

/-- The entity and its flattened form. -/
abbrev Flattened (e : Entity) : Prop :=
  PolicyDecision.Flattened names Entity.attributes toJson (fun _ => decode) e

theorem flattened {e : Entity} (h : e.attributes.Apart names) : e.Flattened where
  plain := h.plain
  written := by
    have hown : ∀ field ∈ e.own.map Document.Entry.field, field.1 ∈ names := by
      simp [own, Document.Entry.field, names]
    exact ⟨_, rfl, h.filter_ofList hown⟩
  reread := by
    rw [Json.decode, Json.normalize_of_normal _ (normal_toJson h.normal)]
    refine decode_toJson (fun column hcolumn => h.plain column.name ?_) h.normal
    exact List.mem_map_of_mem (f := Document.Column.name) hcolumn

/-- The entities that are built, with keys that are no names of fields. -/
inductive Built : Entity → Prop
  | withParents (id : EntityId) (parents : List EntityId) : Built (.withParents id parents)
  | addParent {e : Entity} (parent : EntityId) (h : Built e) : Built (e.addParent parent)
  | withAttribute {e : Entity} {key : String} {value : Json} (hkey : key ∉ names)
    (hvalue : value.Normal) (h : Built e) : Built (e.withAttribute key value)

theorem Built.apart {e : Entity} (h : e.Built) : e.attributes.Apart names := by
  induction h with
  | withParents id parents => exact Attributes.apart_empty
  | addParent parent h ih => exact ih
  | withAttribute hkey hvalue h ih => exact ih.insert hkey hvalue

end Entity

/-! ### Resources -/

namespace Resource

/-- The resource and its flattened form. -/
abbrev Flattened (r : Resource) : Prop :=
  PolicyDecision.Flattened names Resource.attributes toJson (fun _ => decode) r

theorem flattened {r : Resource} (h : r.attributes.Apart names) : r.Flattened where
  plain := h.plain
  written := by
    have hown : ∀ field ∈ r.own.map Document.Entry.field, field.1 ∈ names := by
      rw [own]
      cases r.owner <;> simp [Document.Entry.field, names]
    have hwritten : r.toJson = .ofFields (r.own.map Document.Entry.field ++ r.attributes.fields) := by
      rw [toJson, own]
      cases r.owner <;> rfl
    exact ⟨_, hwritten, h.filter_ofList hown⟩
  reread := by
    rw [Json.decode, Json.normalize_of_normal _ (normal_toJson h.normal)]
    refine decode_toJson (fun column hcolumn => h.plain column.name ?_) h.normal
    exact List.mem_map_of_mem (f := Document.Column.name) hcolumn

/-- The resources that are built, with keys that are no names of fields. -/
inductive Built : Resource → Prop
  | withId (id : ResourceId) : Built { id }
  | ownedBy {r : Resource} (owner : EntityId) (h : Built r) : Built (r.ownedBy owner)
  | ofType {r : Resource} (type : String) (h : Built r) : Built (r.ofType type)
  | bind {r : Resource} (policy : PolicyId) (h : Built r) : Built (r.bind policy)
  | withAttribute {r : Resource} {key : String} {value : Json} (hkey : key ∉ names)
    (hvalue : value.Normal) (h : Built r) : Built (r.withAttribute key value)

theorem Built.apart {r : Resource} (h : r.Built) : r.attributes.Apart names := by
  induction h with
  | withId id => exact Attributes.apart_empty
  | ownedBy owner h ih => exact ih
  | ofType type h ih => exact ih
  | bind policy h ih => exact ih
  | withAttribute hkey hvalue h ih => exact ih.insert hkey hvalue

end Resource

/-- **Attributes survive the flattened form.** A record that is read is what the fields of the object
tell, and no record that is read or built loses or changes an attribute, or anything else, when it is
written and read again. -/
theorem attributes_flattened :
    ((∀ d e, Entity.decode d = .ok e →
        (∃ fields, d.value? = some (.object fields) ∧ e.ToldBy fields) ∧ e.Flattened) ∧
      ∀ e : Entity, e.Built → e.Flattened) ∧
    (∀ d r, Resource.decode d = .ok r →
        (∃ fields, d.value? = some (.object fields) ∧ r.ToldBy fields) ∧ r.Flattened) ∧
      ∀ r : Resource, r.Built → r.Flattened := by
  refine ⟨⟨fun d e h => ?_, fun e h => Entity.flattened h.apart⟩,
    fun d r h => ?_, fun r h => Resource.flattened h.apart⟩
  · obtain ⟨fields, hvalue, htold⟩ := Entity.told_of_decode h
    have hnormal := Document.normal_of_value? hvalue
    exact ⟨⟨fields, hvalue, htold⟩, Entity.flattened (Attributes.apart_of_filter hnormal htold.attributes)⟩
  · obtain ⟨fields, hvalue, htold⟩ := Resource.told_of_decode h
    have hnormal := Document.normal_of_value? hvalue
    exact ⟨⟨fields, hvalue, htold⟩, Resource.flattened (Attributes.apart_of_filter hnormal htold.attributes)⟩

/-- An entity that is built with an attribute named like a field of resources, and a resource that is read
with an attribute named like a field of entities, a null owner and no type. -/
theorem attributes_flattened_across :
    (∃ e, e = (Entity.withParents ⟨⟨1⟩⟩ [⟨⟨2⟩⟩]).withAttribute "owner" (.single "id" .null) ∧
      e.Flattened ∧ ∃ fields, (Document.ofJson e.toJson.normalize).value? = some (.object fields) ∧
        e.ToldBy fields) ∧
    ∃ r, Resource.decode (.ofJson (.object [("id", .string (toString (⟨⟨3⟩⟩ : ResourceId))),
        ("owner", .null), ("parents", .strings ["x"])])) = .ok r ∧
      r.type = "default" ∧ r.attributes.fields = [("parents", .strings ["x"])] ∧ r.Flattened := by
  obtain ⟨⟨hentity, hentities⟩, hresource, -⟩ := attributes_flattened
  constructor
  · have hbuilt : ((Entity.withParents ⟨⟨1⟩⟩ [⟨⟨2⟩⟩]).withAttribute "owner" (.single "id" .null)).Built :=
      .withAttribute (by decide) (Json.normal_single (by simp [Json.Normal])) (.withParents _ _)
    have hflattened := hentities _ hbuilt
    exact ⟨_, rfl, hflattened, (hentity _ _ hflattened.reread).1⟩
  · have hdecode : Resource.decode (.ofJson (.object [("id", .string (toString (⟨⟨3⟩⟩ : ResourceId))),
        ("owner", .null), ("parents", .strings ["x"])])) =
        .ok { id := ⟨⟨3⟩⟩, attributes := { fields := [("parents", .strings ["x"])] } } := by
      have hjson : (Document.ofJson (.strings ["x"])).asJson = .ok (.strings ["x"]) :=
        Document.asJson_ofJson (Json.normal_strings _)
      rw [Resource.decode, Document.ofJson, Document.asOpenRecord]
      simp only [Document.ofFields, Document.ofJson, Document.readFields, Resource.columns, List.find?_cons,
        Resource.Draft.addAttribute]
      simp [hjson, Document.asOption]
      rfl
    exact ⟨_, hdecode, rfl, rfl, (hresource _ _ hdecode).2⟩

end PolicyDecision
