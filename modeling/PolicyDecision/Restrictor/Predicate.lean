import PolicyDecision.Graph
import PolicyDecision.Operators
import PolicyDecision.Predicate
import PolicyDecision.Restrictor

/-!
# Restrictors as predicates

A restrictor becomes a predicate on entities: the conjunction of a test per clause. Custom
clauses are built when the predicate is made, in order, and the first that cannot be built
decides the error; nothing is evaluated before all of them are built.
-/

namespace PolicyDecision

inductive EntityTest
  | hasId (target : EntityId)
  | isSubOf (target : EntityId)
  /-- A custom operator, built for an argument. -/
  | custom (name : String) (arg : Json) (test : Test Entity)

abbrev EntityPredicate := Predicate EntityTest

def Operators.forEntities : Operators Entity where
  reserved := Clause.builtins

/-- Make a test of a clause. -/
def Clause.compile (ops : Operators Entity) : Clause → Audited EntityPredicate
  | .id target => return .test (.hasId target)
  | .subOf target => return .test (.isSubOf target)
  | .custom name arg => do return .test (.custom name arg (← ops.build name arg))

/-- Make a predicate of a restrictor. -/
def Restrictor.compile (ops : Operators Entity) : Restrictor → Audited EntityPredicate
  | .wildcard => return .constant true
  | .noOwner => return .constant false
  | .all clauses => do return .allOf (← clauses.mapM (Clause.compile ops))

/-- Evaluate a test on an entity. -/
def EntityTest.eval (entity : Entity) : EntityTest → Act Graph Bool
  | .hasId target => do
    Act.record (.reached (.clause (.id target)))
    return entity.id = target
  | .isSubOf target => do
    Act.record (.reached (.clause (.subOf target)))
    Graph.isSubOf entity target
  | .custom name arg test => do
    Act.record (.reached (.clause (.custom name arg)))
    Act.record (.evaluated name arg)
    Act.ofExcept (test entity)

/-- Evaluate a predicate on an entity. -/
def EntityPredicate.eval (p : EntityPredicate) (entity : Entity) : Act Graph Bool :=
  p.run (EntityTest.eval entity)

end PolicyDecision
