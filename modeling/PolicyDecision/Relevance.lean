import PolicyDecision.Graph

/-!
# Relevance

Which policies are asked about a resource: those bound to it, and those whose selector accepts
its type and its owner. Whether an owner is accepted is decided from the owner and its ancestors
alone; custom clauses of a restrictor play no part in this. Candidates are asked in the order of
their priority, the highest first, and in the order of the store where priorities are equal.
-/

namespace PolicyDecision

/-- The owner of a resource with its ancestors, itself included. -/
inductive Ownership
  | unowned
  | owned (owner : EntityId) (closure : IdSet .entity)

/-- What decides which policies are relevant to a resource. -/
structure Relevance where
  type : String
  ownership : Ownership
  bound : IdSet .policy

/-- Policies in the order of their priority, the highest first; equal ones keep their order. -/
def Policy.byPriority (policies : List Policy) : List Policy :=
  policies.mergeSort fun a b => b.priority ≤ a.priority

namespace Ownership

/-- Whether a clause accepts an owner. -/
def satisfies (owner : EntityId) (closure : IdSet .entity) : Clause → Bool
  | .id target => target = owner
  | .subOf target => target ∈ closure
  | .custom _ _ => true

/-- Whether a restrictor accepts the owner. -/
def accepted : Ownership → Restrictor → Bool
  | _, .wildcard => true
  | .unowned, .noOwner => true
  | .owned _ _, .noOwner => false
  | .unowned, .all _ => false
  | .owned owner closure, .all clauses => clauses.all (satisfies owner closure)

end Ownership

namespace Relevance

/-- The relevance for a resource whose owner has these ancestors. -/
def ofResource (resource : Resource) (closure : IdSet .entity) : Relevance where
  type := resource.type
  ownership :=
    match resource.owner with
    | some owner => .owned owner (closure.insert owner)
    | none => .unowned
  bound := resource.boundPolicies

/-- Whether a selector accepts the resource. -/
def selects (r : Relevance) : Selector → Bool
  | .wildcard => true
  | .matching type owner =>
    type.all (fun t => t = "*" ∨ t = r.type) && owner.all r.ownership.accepted

/-- Whether a policy is relevant. -/
def accepts (r : Relevance) (policy : Policy) : Bool :=
  policy.id ∈ r.bound || policy.selector.any r.selects

/-- The relevant policies that a store finds, the highest priority first. -/
def candidates (r : Relevance) (policies : List Policy) : List Policy :=
  Policy.byPriority (policies.filter r.accepts)

end Relevance

/-- The relevance for a resource, for which the ancestors of its owner are resolved. -/
def Graph.relevance (resource : Resource) : Act Graph Relevance := do
  match resource.owner with
  | some owner => return .ofResource resource (← ancestors owner true)
  | none => return .ofResource resource .empty

end PolicyDecision
