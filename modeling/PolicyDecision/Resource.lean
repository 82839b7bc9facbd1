import PolicyDecision.Attributes
import PolicyDecision.Document.Decoding

/-!
# Resources

A resource is what a request wants access to. It has a type, it may have an owner, and policies
may be bound to it. In JSON its attributes stand beside its own fields, as an entity's do.

A request names a resource by its identifier or gives the whole document.
-/

namespace PolicyDecision

/-- What a request wants access to. -/
structure Resource where
  id : ResourceId
  owner : Option EntityId := none
  type : String := "default"
  boundPolicies : IdSet .policy := .empty
  attributes : Attributes := .empty

namespace Resource

instance : BEq Resource :=
  ⟨fun a b => a.id = b.id && a.owner = b.owner && a.type = b.type &&
    a.boundPolicies = b.boundPolicies && a.attributes == b.attributes⟩

def ownedBy (r : Resource) (owner : EntityId) : Resource :=
  { r with owner := some owner }

def ofType (r : Resource) (type : String) : Resource :=
  { r with type }

def withAttribute (r : Resource) (key : String) (value : Json) : Resource :=
  { r with attributes := r.attributes.insert key value }

def bind (r : Resource) (policy : PolicyId) : Resource :=
  { r with boundPolicies := r.boundPolicies.insert policy }

/-! ### JSON -/

/-- An attribute named like a field is written in place of the field; a resource without owner
has no such field. -/
def toJson (r : Resource) : Json :=
  let owner := match r.owner with
    | some owner => [("owner", Json.string (toString owner))]
    | none => []
  .ofFields (("id", .string (toString r.id)) :: owner ++ ("type", .string r.type) ::
    ("boundPolicies", .strings (r.boundPolicies.toList.map toString)) :: r.attributes.fields)

/-- What has been read of a resource. -/
structure Draft where
  id : Option ResourceId := none
  owner : Option (Option EntityId) := none
  type : Option String := none
  boundPolicies : Option (IdSet .policy) := none
  attributes : Attributes := .empty

def columns : List (Document.Column Draft) :=
  [⟨"id", fun draft d => do return { draft with id := some (← d.asId .resource) }⟩,
   ⟨"owner", fun draft d => do
      return { draft with owner := some (← d.asOption (Document.asId .entity)) }⟩,
   ⟨"type", fun draft d => do return { draft with type := some (← d.asString) }⟩,
   ⟨"boundPolicies", fun draft d => do
      return { draft with boundPolicies := some (← d.asIdSet .policy) }⟩]

/-- Keep a field that is no column as an attribute. -/
def Draft.addAttribute (draft : Draft) (key : String) (d : Document) : Decoded Draft := do
  return { draft with attributes := draft.attributes.insert key (← d.asJson) }

def decode (d : Document) : Decoded Resource := do
  let draft ← d.asOpenRecord columns {} Draft.addAttribute
  let id ← Document.Form.fields.required "id" draft.id
  return {
    id
    owner := draft.owner.getD none
    type := draft.type.getD "default"
    boundPolicies := draft.boundPolicies.getD .empty
    attributes := draft.attributes }

end Resource

/-- A resource by its identifier, or as a document that is used as it is given. -/
inductive ResourceRef
  | byId (id : ResourceId)
  | given (resource : Resource)

namespace ResourceRef

def target : ResourceRef → ResourceId
  | .byId id => id
  | .given resource => resource.id

/-- Read either form. The document is read as a value first, but keeps its repeated fields. -/
def decode (d : Document) : Decoded ResourceRef :=
  match d.raw? with
  | none => .error .malformed
  | some j =>
    match (Document.ofJson j).asId .resource with
    | .ok id => .ok (.byId id)
    | .error _ =>
      match Resource.decode (.ofJson j) with
      | .ok resource => .ok (.given resource)
      | .error _ => .error (.noVariant "ResourceRef")

end ResourceRef
end PolicyDecision
