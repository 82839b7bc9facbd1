import PolicyDecision.Condition
import PolicyDecision.Context
import PolicyDecision.Restrictor.Predicate

/-!
# Condition trees as predicates

A tree becomes a predicate on the context of a request: siblings and `and` lists are
conjunctions, `or` lists disjunctions, `not` and `nor` negations. Custom operators at any depth
are built when the predicate is made, depth first and from left to right, and the first that
cannot be built decides the error.

Evaluation works on an `Inquiry`: the graph, and the requester once it has been fetched. The
requester is fetched when the first test needs it; a wildcard does not need it.
-/

namespace PolicyDecision

inductive ContextTest
  /-- The requester satisfies a predicate. -/
  | requester (accepted : EntityPredicate)
  | resourceIs (id : ResourceId)
  | accessWithin (allowed : Access)
  /-- A custom operator, built for an argument. -/
  | custom (name : String) (arg : Json) (test : Test Context)

abbrev ContextPredicate := Predicate ContextTest

def Operators.forContexts : Operators Context where
  reserved := Condition.builtins

/-- The operators for either kind of predicate. -/
structure Registry where
  entityOps : Operators Entity := .forEntities
  contextOps : Operators Context := .forContexts

/-! ### Making predicates -/

/-- Make a predicate of the restrictor on the requester; a wildcard needs no requester. -/
def Restrictor.compileRequester (ops : Operators Entity) (restrictor : Restrictor) :
    Audited ContextPredicate :=
  if restrictor.isWildcard then return .constant true
  else do return .test (.requester (← restrictor.compile ops))

mutual

/-- Make a predicate of a condition. -/
def Condition.compile (registry : Registry) : Condition → Audited ContextPredicate
  | .requester restrictor => restrictor.compileRequester registry.entityOps
  | .resourceId id => return .test (.resourceIs id)
  | .access allowed => return .test (.accessWithin allowed)
  | .not tree => do return .not (.allOf (← Tree.compileAll registry tree))
  | .nor trees => do return .not (.anyOf (← Tree.compileEach registry trees))
  | .or trees => do return .anyOf (← Tree.compileEach registry trees)
  | .and trees => do return .allOf (← Tree.compileEach registry trees)
  | .custom name arg => do return .test (.custom name arg (← registry.contextOps.build name arg))

/-- Make a predicate of each condition of a tree. -/
def Tree.compileAll (registry : Registry) : List Condition → Audited (List ContextPredicate)
  | [] => return []
  | condition :: conditions => do
    let p ← condition.compile registry
    return p :: (← Tree.compileAll registry conditions)

/-- Make a predicate of each tree of a list. -/
def Tree.compileEach (registry : Registry) : List (List Condition) →
    Audited (List ContextPredicate)
  | [] => return []
  | tree :: trees => do
    let ps ← Tree.compileAll registry tree
    return .allOf ps :: (← Tree.compileEach registry trees)

end

def Tree.compile (registry : Registry) (tree : Tree) : Audited ContextPredicate := do
  return .allOf (← Tree.compileAll registry tree)

/-! ### Evaluating them -/

/-- What evaluation works on: the graph, and the requester once it has been fetched. -/
structure Inquiry where
  graph : Graph
  requester : Option Entity := none

namespace Inquiry

def onGraph {α : Type} (x : Act Graph α) : Act Inquiry α :=
  x.zoom Inquiry.graph fun graph inquiry => { inquiry with graph }

/-- The requester, which is fetched at most once. -/
def fetchRequester (id : EntityId) : Act Inquiry Entity := do
  match (← get).requester with
  | some entity => return entity
  | none =>
    let entity ← onGraph (Graph.retrieve id)
    modify fun inquiry => { inquiry with requester := some entity }
    return entity

end Inquiry

/-- Evaluate a test on a request. -/
def ContextTest.eval (context : Context) : ContextTest → Act Inquiry Bool
  | .requester accepted => do
    Act.record (.reached .requester)
    let entity ← Inquiry.fetchRequester context.requester
    Inquiry.onGraph (accepted.eval entity)
  | .resourceIs id => do
    Act.record (.reached (.resourceId id))
    return context.resource = id
  | .accessWithin allowed => do
    Act.record (.reached (.access allowed))
    return context.access.isWithin allowed
  | .custom name arg test => do
    Act.record (.reached (.custom name arg))
    Act.record (.evaluated name arg)
    Act.ofExcept (test context)

/-- Evaluate a predicate on a request. -/
def ContextPredicate.eval (p : ContextPredicate) (context : Context) : Act Inquiry Bool :=
  p.run (ContextTest.eval context)

end PolicyDecision
