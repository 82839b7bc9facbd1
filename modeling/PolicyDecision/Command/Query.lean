import PolicyDecision.Compounder
import PolicyDecision.Request

/-!
# Queries

A query is a request together with the name of the compounder that is to decide it. In its
written form the name may be absent.
-/

namespace PolicyDecision

/-- A request and what decides it. -/
structure Query where
  request : Request
  compounder : CompounderKind := .denyOverrides

namespace Query

/-- What has been read of a query. -/
structure Draft where
  request : Request.Draft := {}
  compounder : CompounderKind := .denyOverrides

/-- The fields of the request, and the name. -/
def columns (source : Source) : List (Document.Column Draft) :=
  Request.columns.map (fun column =>
    ⟨column.name, fun draft d => do
      return { draft with request := ← column.read draft.request d }⟩) ++
  [⟨"compounder", fun draft d => do
      return { draft with compounder := ← CompounderKind.decode source d }⟩]

def decode (source : Source) (d : Document) : Decoded Query := do
  let (draft, form) ← d.asRecord source (columns source) {}
  return { request := ← draft.request.complete form, compounder := draft.compounder }

end Query
end PolicyDecision
