import PolicyDecision.Predicate
import PolicyDecision.Proofs.Act

/-!
# Running predicates

A conjunction or disjunction of fewer than two children is left out when predicates are built;
that cannot be seen when they are run, nor from the tests that they have (`Predicate.tests`). A run
inherits every compositional property of its tests.
-/

namespace PolicyDecision.Predicate

variable {τ σ : Type} {m : Type → Type} [Monad m]

@[simp] theorem run_constant (meaning : τ → m Bool) (outcome : Bool) :
    (constant outcome).run meaning = pure outcome := by
  rw [run]

@[simp] theorem run_test (meaning : τ → m Bool) (t : τ) : (test t).run meaning = meaning t := by
  rw [run]

@[simp] theorem run_not (meaning : τ → m Bool) (p : Predicate τ) :
    p.not.run meaning = (do return !(← p.run meaning)) := by
  rw [run]

@[simp] theorem runAll_nil (meaning : τ → m Bool) : runAll meaning [] = pure true := by
  rw [runAll]

@[simp] theorem runAll_cons (meaning : τ → m Bool) (p : Predicate τ) (ps : List (Predicate τ)) :
    runAll meaning (p :: ps) =
      (do if ← p.run meaning then runAll meaning ps else return false) := by
  rw [runAll]

@[simp] theorem runAny_nil (meaning : τ → m Bool) : runAny meaning [] = pure false := by
  rw [runAny]

@[simp] theorem runAny_cons (meaning : τ → m Bool) (p : Predicate τ) (ps : List (Predicate τ)) :
    runAny meaning (p :: ps) =
      (do if ← p.run meaning then return true else runAny meaning ps) := by
  rw [runAny]

/-- To answer what one was told is to do nothing. -/
theorem ite_pure_true_false (b : Bool) : (if b then pure true else pure false : m Bool) = pure b := by
  cases b <;> rfl

/-- Leaving out a short conjunction makes no difference. -/
@[simp] theorem run_allOf [LawfulMonad m] (meaning : τ → m Bool) (ps : List (Predicate τ)) :
    (allOf ps).run meaning = runAll meaning ps := by
  match ps with
  | [] => simp [allOf]
  | [p] => simp [allOf, ite_pure_true_false]
  | p :: q :: ps =>
    show (all (p :: q :: ps)).run meaning = _
    rw [run]

/-- Leaving out a short disjunction makes no difference. -/
@[simp] theorem run_anyOf [LawfulMonad m] (meaning : τ → m Bool) (ps : List (Predicate τ)) :
    (anyOf ps).run meaning = runAny meaning ps := by
  match ps with
  | [] => simp [anyOf]
  | [p] => simp [anyOf, ite_pure_true_false]
  | p :: q :: ps =>
    show (any (p :: q :: ps)).run meaning = _
    rw [run]

/-! ### The tests of a predicate -/

mutual

/-- The tests of a predicate at any depth, from left to right. -/
def tests : Predicate τ → List τ
  | .constant _ => []
  | .test t => [t]
  | .all children | .any children => testsOfEach children
  | .not inner => inner.tests

/-- The tests of a list of predicates, from left to right. -/
def testsOfEach : List (Predicate τ) → List τ
  | [] => []
  | p :: ps => p.tests ++ testsOfEach ps

end

@[simp] theorem tests_constant (outcome : Bool) : (constant outcome : Predicate τ).tests = [] := by
  rw [tests]

@[simp] theorem tests_test (t : τ) : (test t).tests = [t] := by
  rw [tests]

@[simp] theorem tests_not (p : Predicate τ) : p.not.tests = p.tests := by
  rw [tests]

@[simp] theorem testsOfEach_nil : testsOfEach ([] : List (Predicate τ)) = [] := by
  rw [testsOfEach]

@[simp] theorem testsOfEach_cons (p : Predicate τ) (ps : List (Predicate τ)) :
    testsOfEach (p :: ps) = p.tests ++ testsOfEach ps := by
  rw [testsOfEach]

@[simp] theorem tests_allOf (ps : List (Predicate τ)) : (allOf ps).tests = testsOfEach ps := by
  match ps with
  | [] => simp [allOf]
  | [p] => simp [allOf]
  | p :: q :: ps =>
    show (all (p :: q :: ps)).tests = _
    rw [tests]

@[simp] theorem tests_anyOf (ps : List (Predicate τ)) : (anyOf ps).tests = testsOfEach ps := by
  match ps with
  | [] => simp [anyOf]
  | [p] => simp [anyOf]
  | p :: q :: ps =>
    show (any (p :: q :: ps)).tests = _
    rw [tests]

/-! ### What runs inherit from their tests -/

variable {P : Act σ Bool → Prop} {meaning : τ → Act σ Bool}

mutual

/-- A predicate whose tests have a compositional property has it. -/
theorem compositional_run (hP : Act.Compositional P) (h : ∀ t, P (meaning t)) :
    (p : Predicate τ) → P (p.run meaning)
  | .constant outcome => by
    rw [run]
    exact hP.pure outcome
  | .test t => by
    rw [run]
    exact h t
  | .all children => by
    rw [run]
    exact compositional_runAll hP h children
  | .any children => by
    rw [run]
    exact compositional_runAny hP h children
  | .not inner => by
    rw [run]
    exact hP.bind (compositional_run hP h inner) fun b => hP.pure (!b)

theorem compositional_runAll (hP : Act.Compositional P) (h : ∀ t, P (meaning t)) :
    (ps : List (Predicate τ)) → P (runAll meaning ps)
  | [] => by
    rw [runAll]
    exact hP.pure true
  | p :: ps => by
    rw [runAll]
    apply hP.bind (compositional_run hP h p)
    intro b
    cases b with
    | true => exact compositional_runAll hP h ps
    | false => exact hP.pure false

theorem compositional_runAny (hP : Act.Compositional P) (h : ∀ t, P (meaning t)) :
    (ps : List (Predicate τ)) → P (runAny meaning ps)
  | [] => by
    rw [runAny]
    exact hP.pure false
  | p :: ps => by
    rw [runAny]
    apply hP.bind (compositional_run hP h p)
    intro b
    cases b with
    | true => exact hP.pure true
    | false => exact compositional_runAny hP h ps

end

end PolicyDecision.Predicate
