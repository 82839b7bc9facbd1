/-!
# Predicates

Boolean combinations of tests. What a test is and with which effects it is run is left open:
`run` takes the tests' meaning in any monad. A conjunction stops at the first child that fails,
a disjunction at the first that holds, both from left to right; a failing test ends everything.

Combinations are built by `allOf` and `anyOf`, which leave out a conjunction or disjunction of
fewer than two children.
-/

namespace PolicyDecision

/-- A boolean combination of tests. -/
inductive Predicate (τ : Type)
  | constant (outcome : Bool)
  | test (t : τ)
  | all (children : List (Predicate τ))
  | any (children : List (Predicate τ))
  | not (inner : Predicate τ)

namespace Predicate

variable {τ : Type} {m : Type → Type} [Monad m]

/-- The conjunction of a list; a single child stands for itself. -/
def allOf : List (Predicate τ) → Predicate τ
  | [] => .constant true
  | [child] => child
  | children => .all children

/-- The disjunction of a list; a single child stands for itself. -/
def anyOf : List (Predicate τ) → Predicate τ
  | [] => .constant false
  | [child] => child
  | children => .any children

mutual

/-- Evaluate a predicate, given the meaning of tests. -/
def run (meaning : τ → m Bool) : Predicate τ → m Bool
  | .constant outcome => pure outcome
  | .test t => meaning t
  | .all children => runAll meaning children
  | .any children => runAny meaning children
  | .not inner => do return !(← run meaning inner)

/-- Whether every child holds. -/
def runAll (meaning : τ → m Bool) : List (Predicate τ) → m Bool
  | [] => pure true
  | child :: children => do
    if ← run meaning child then runAll meaning children else return false

/-- Whether a child holds. -/
def runAny (meaning : τ → m Bool) : List (Predicate τ) → m Bool
  | [] => pure false
  | child :: children => do
    if ← run meaning child then return true else runAny meaning children

end

end Predicate
end PolicyDecision
