import PolicyDecision.Access
import PolicyDecision.Resource

/-!
# Requests

A request asks whether a requester may have an access to a resource.
-/

namespace PolicyDecision

/-- Who wants which access to what. -/
structure Request where
  requester : EntityId
  access : Access
  resource : ResourceRef

namespace Request

/-- What has been read of a request. -/
structure Draft where
  requester : Option EntityId := none
  access : Option Access := none
  resource : Option ResourceRef := none

def columns : List (Document.Column Draft) :=
  [⟨"requester", fun draft d => do return { draft with requester := some (← d.asId .entity) }⟩,
   ⟨"access", fun draft d => do return { draft with access := some (← Access.decode d) }⟩,
   ⟨"resource", fun draft d => do return { draft with resource := some (← ResourceRef.decode d) }⟩]

/-- The request that a draft holds, if none of its fields is missing. -/
def Draft.complete (draft : Draft) (form : Document.Form) : Decoded Request := do
  return {
    requester := ← form.required "requester" draft.requester
    access := ← form.required "access" draft.access
    resource := ← form.required "resource" draft.resource }

def decode (source : Source) (d : Document) : Decoded Request := do
  let (draft, form) ← d.asRecord source columns {}
  draft.complete form

end Request
end PolicyDecision
