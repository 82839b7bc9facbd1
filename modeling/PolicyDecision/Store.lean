import PolicyDecision.Snapshot
import PolicyDecision.Table

/-!
# Stores

A store holds entities, resources and policies by identifier. Policies keep the order in which
they were first put there, which decides between policies of equal priority.
-/

namespace PolicyDecision

instance : Identified Entity .entity := ⟨Entity.id⟩
instance : Identified Resource .resource := ⟨Resource.id⟩
instance : Identified Policy .policy := ⟨Policy.id⟩

/-- The documents that requests are decided by. -/
structure Store where
  entities : Table Entity := .empty
  resources : Table Resource := .empty
  policies : Table Policy := .empty

namespace Store

/-- The store of a snapshot. Of several documents of one identifier the last one is kept, at the
place of the first. -/
def ofSnapshot (s : Snapshot) : Store where
  entities := .ofList s.entities
  resources := .ofList s.resources
  policies := .ofList s.policies

/-- The written form of the store. -/
def snapshot (s : Store) : Snapshot where
  entities := s.entities.docs
  resources := s.resources.docs
  policies := s.policies.docs

end Store
end PolicyDecision
