import PolicyDecision.Entity
import PolicyDecision.Policy.Json
import PolicyDecision.Resource

/-!
# Snapshots

A snapshot is the written form of a whole store: lists of entities, resources and policies, in
which an identifier may repeat.
-/

namespace PolicyDecision

/-- The documents of a store. -/
structure Snapshot where
  entities : List Entity := []
  resources : List Resource := []
  policies : List Policy := []

namespace Snapshot

/-- Decode policies; the one at place `i` is called `fresh i` if it has no identifier. -/
def decodePolicies (fresh : Nat → PolicyId) (source : Source) : Document → Decoded (List Policy)
  | .list items closed => do
    let policies ← items.zipIdx.mapM fun (d, i) => Policy.decode (fresh i) source d
    if closed then .ok policies else .error .malformed
  | .deep (.list _ _) => .error .malformed
  | d => .error d.mismatch

def columns (fresh : Nat → PolicyId) (source : Source) : List (Document.Column Snapshot) :=
  [⟨"entities", fun draft d => do return { draft with entities := ← d.asList Entity.decode }⟩,
   ⟨"resources", fun draft d => do return { draft with resources := ← d.asList Resource.decode }⟩,
   ⟨"policies", fun draft d => do
      return { draft with policies := ← decodePolicies fresh source d }⟩]

def decode (fresh : Nat → PolicyId) (source : Source) (d : Document) : Decoded Snapshot :=
  Prod.fst <$> d.asRecord source (columns fresh source) {}

def toJson (s : Snapshot) : Json :=
  .ofFields
    [("entities", .array (s.entities.map Entity.toJson)),
     ("resources", .array (s.resources.map Resource.toJson)),
     ("policies", .array (s.policies.map Policy.toJson))]

end Snapshot
end PolicyDecision
