import PolicyDecision.Attributes
import PolicyDecision.Document.Decoding

/-!
# Entities

An entity is a principal or a group. It inherits from its parents, and carries attributes that
custom operators inspect.

In JSON the attributes stand beside the entity's own fields, so every field that is not one of
them is an attribute.
-/

namespace PolicyDecision

/-- A principal or a group, with the entities that it directly belongs to. -/
structure Entity where
  id : EntityId
  parents : IdSet .entity := .empty
  attributes : Attributes := .empty

namespace Entity

instance : BEq Entity :=
  ⟨fun a b => a.id = b.id && a.parents = b.parents && a.attributes == b.attributes⟩

/-- An entity with the given parents and no attributes. -/
def withParents (id : EntityId) (parents : List EntityId) : Entity :=
  { id, parents := .ofList parents }

def withAttribute (e : Entity) (key : String) (value : Json) : Entity :=
  { e with attributes := e.attributes.insert key value }

/-- Make `parent` a parent. -/
def addParent (e : Entity) (parent : EntityId) : Entity :=
  { e with parents := e.parents.insert parent }

/-! ### JSON -/

/-- An attribute named like a field is written in place of the field. -/
def toJson (e : Entity) : Json :=
  .ofFields (("id", .string (toString e.id)) ::
    ("parents", .strings (e.parents.toList.map toString)) :: e.attributes.fields)

/-- What has been read of an entity. -/
structure Draft where
  id : Option EntityId := none
  parents : Option (IdSet .entity) := none
  attributes : Attributes := .empty

def columns : List (Document.Column Draft) :=
  [⟨"id", fun draft d => do return { draft with id := some (← d.asId .entity) }⟩,
   ⟨"parents", fun draft d => do return { draft with parents := some (← d.asIdSet .entity) }⟩]

/-- Keep a field that is no column as an attribute. -/
def Draft.addAttribute (draft : Draft) (key : String) (d : Document) : Decoded Draft := do
  return { draft with attributes := draft.attributes.insert key (← d.asJson) }

def decode (d : Document) : Decoded Entity := do
  let draft ← d.asOpenRecord columns {} Draft.addAttribute
  let id ← Document.Form.fields.required "id" draft.id
  return { id, parents := draft.parents.getD .empty, attributes := draft.attributes }

end Entity
end PolicyDecision
