import PolicyDecision.Access

/-!
# Contexts

What conditions look at: who asks, for which access, to which resource.
-/

namespace PolicyDecision

/-- The facts of one request. -/
structure Context where
  requester : EntityId
  access : Access
  resource : ResourceId

end PolicyDecision
