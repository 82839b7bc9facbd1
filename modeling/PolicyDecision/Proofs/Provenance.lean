import PolicyDecision.Proofs.Compilation

/-!
# Where the tests of a predicate come from

The custom tests in a predicate that is made of a tree stand for the custom keys of the tree, one for
one and in order, and each was built by the factory that is registered under its name
(`Tree.builtFor_compile`). Once it is built, a test does not change when operators are registered; so a
predicate that is kept may have tests of operators that have been replaced since.
-/

namespace PolicyDecision

/-- A custom test in a predicate, with the key that it was built for. -/
inductive BuiltTest
  | clause (name : String) (arg : Json) (test : Test Entity)
  | condition (name : String) (arg : Json) (test : Test Context)

namespace BuiltTest

def key : BuiltTest → CustomKey
  | clause name arg _ => .clause name arg
  | condition name arg _ => .condition name arg

/-- The test is what the factory makes that is registered under its name. -/
def BuiltBy (registry : Registry) : BuiltTest → Prop
  | clause name arg test =>
    ∃ factory, registry.entityOps.find? name = some factory ∧ factory arg = .ok test
  | condition name arg test =>
    ∃ factory, registry.contextOps.find? name = some factory ∧ factory arg = .ok test

end BuiltTest

/-- The custom tests among the tests of an entity. -/
def EntityTest.built : EntityTest → List BuiltTest
  | .custom name arg test => [.clause name arg test]
  | _ => []

/-- The custom tests in a test of a request. -/
def ContextTest.built : ContextTest → List BuiltTest
  | .requester accepted => accepted.tests.flatMap EntityTest.built
  | .custom name arg test => [.condition name arg test]
  | _ => []

/-- The custom tests in a predicate, from left to right. -/
def ContextPredicate.built (p : ContextPredicate) : List BuiltTest :=
  p.tests.flatMap ContextTest.built

/-- The tests were built for these keys, by the operators registered now. -/
structure BuiltFor (registry : Registry) (keys : List CustomKey) (built : List BuiltTest) : Prop where
  keys_eq : built.map BuiltTest.key = keys
  builtBy : ∀ test ∈ built, test.BuiltBy registry

namespace BuiltFor

variable {registry : Registry} {keys keys' : List CustomKey} {built built' : List BuiltTest}

theorem nil : BuiltFor registry [] [] :=
  ⟨rfl, by simp⟩

theorem single {test : BuiltTest} (h : test.BuiltBy registry) :
    BuiltFor registry [test.key] [test] :=
  ⟨rfl, by simpa using h⟩

theorem append (h : BuiltFor registry keys built) (h' : BuiltFor registry keys' built') :
    BuiltFor registry (keys ++ keys') (built ++ built') where
  keys_eq := by rw [List.map_append, h.keys_eq, h'.keys_eq]
  builtBy test htest := by
    rcases List.mem_append.1 htest with htest | htest
    · exact h.builtBy test htest
    · exact h'.builtBy test htest

end BuiltFor

/-- What is built comes from the registered factory. -/
theorem Operators.find?_of_build {α : Type} {ops : Operators α} {name : String} {arg : Json}
    {test : Test α} (h : (ops.build name arg ()).result = .ok test) :
    ∃ factory, ops.find? name = some factory ∧ factory arg = .ok test := by
  rw [build] at h
  cases hfind : ops.find? name with
  | none =>
    rw [hfind] at h
    cases h
  | some factory =>
    rw [hfind] at h
    obtain ⟨-, -, h⟩ := Act.bind_eq_ok.1 h
    exact ⟨factory, rfl, h⟩

/-! ### Restrictors -/

variable {registry : Registry}

theorem Clause.builtFor_compile {clause : Clause} {p : EntityPredicate}
    (h : (clause.compile registry.entityOps ()).result = .ok p) :
    BuiltFor registry clause.customKeys (p.tests.flatMap EntityTest.built) := by
  cases clause with
  | id target =>
    cases h
    exact .nil
  | subOf target =>
    cases h
    exact .nil
  | custom name arg =>
    obtain ⟨test, htest, h⟩ := Act.bind_eq_ok.1 h
    cases h
    have hbuilt : (BuiltTest.clause name arg test).BuiltBy registry := Operators.find?_of_build htest
    exact .single hbuilt

theorem Clause.builtFor_compileEach {clauses : List Clause} {ps : List EntityPredicate}
    (h : (clauses.mapM (Clause.compile registry.entityOps) ()).result = .ok ps) :
    BuiltFor registry (clauses.flatMap Clause.customKeys)
      ((Predicate.testsOfEach ps).flatMap EntityTest.built) := by
  induction clauses generalizing ps with
  | nil =>
    cases h
    exact .nil
  | cons clause clauses ih =>
    rw [List.mapM_cons] at h
    obtain ⟨p, hp, h⟩ := Act.bind_eq_ok.1 h
    obtain ⟨ps', hps, h⟩ := Act.bind_eq_ok.1 h
    cases h
    rw [Predicate.testsOfEach_cons, List.flatMap_append, List.flatMap_cons]
    exact (Clause.builtFor_compile hp).append (ih hps)

theorem Restrictor.builtFor_compile {restrictor : Restrictor} {p : EntityPredicate}
    (h : (restrictor.compile registry.entityOps ()).result = .ok p) :
    BuiltFor registry restrictor.customKeys (p.tests.flatMap EntityTest.built) := by
  cases restrictor with
  | wildcard =>
    cases h
    exact .nil
  | noOwner =>
    cases h
    exact .nil
  | all clauses =>
    obtain ⟨ps, hps, h⟩ := Act.bind_eq_ok.1 h
    cases h
    rw [Predicate.tests_allOf]
    exact Clause.builtFor_compileEach hps

theorem Restrictor.builtFor_compileRequester {restrictor : Restrictor} {p : ContextPredicate}
    (h : (restrictor.compileRequester registry.entityOps ()).result = .ok p) :
    BuiltFor registry restrictor.customKeys p.built := by
  rw [compileRequester] at h
  split at h
  · next hwild =>
    cases restrictor with
    | wildcard =>
      cases h
      exact .nil
    | noOwner => cases hwild
    | all clauses => cases hwild
  · obtain ⟨accepted, haccepted, h⟩ := Act.bind_eq_ok.1 h
    cases h
    rw [ContextPredicate.built, Predicate.tests_test, List.flatMap_singleton, ContextTest.built]
    exact Restrictor.builtFor_compile haccepted

/-! ### Trees -/

mutual

theorem Condition.builtFor_compile : (condition : Condition) → ∀ {p : ContextPredicate},
    (condition.compile registry ()).result = .ok p → BuiltFor registry condition.customKeys p.built
  | .requester restrictor, p, h => by
    rw [Condition.compile] at h
    rw [Condition.customKeys]
    exact Restrictor.builtFor_compileRequester h
  | .resourceId id, p, h => by
    rw [Condition.compile] at h
    cases h
    exact .nil
  | .access allowed, p, h => by
    rw [Condition.compile] at h
    cases h
    exact .nil
  | .not tree, p, h => by
    rw [Condition.compile] at h
    obtain ⟨ps, hps, h⟩ := Act.bind_eq_ok.1 h
    cases h
    rw [Condition.customKeys, ContextPredicate.built, Predicate.tests_not, Predicate.tests_allOf]
    exact Tree.builtFor_compileAll tree hps
  | .nor trees, p, h => by
    rw [Condition.compile] at h
    obtain ⟨ps, hps, h⟩ := Act.bind_eq_ok.1 h
    cases h
    rw [Condition.customKeys, ContextPredicate.built, Predicate.tests_not, Predicate.tests_anyOf]
    exact Tree.builtFor_compileEach trees hps
  | .or trees, p, h => by
    rw [Condition.compile] at h
    obtain ⟨ps, hps, h⟩ := Act.bind_eq_ok.1 h
    cases h
    rw [Condition.customKeys, ContextPredicate.built, Predicate.tests_anyOf]
    exact Tree.builtFor_compileEach trees hps
  | .and trees, p, h => by
    rw [Condition.compile] at h
    obtain ⟨ps, hps, h⟩ := Act.bind_eq_ok.1 h
    cases h
    rw [Condition.customKeys, ContextPredicate.built, Predicate.tests_allOf]
    exact Tree.builtFor_compileEach trees hps
  | .custom name arg, p, h => by
    rw [Condition.compile] at h
    obtain ⟨test, htest, h⟩ := Act.bind_eq_ok.1 h
    cases h
    rw [Condition.customKeys]
    have hbuilt : (BuiltTest.condition name arg test).BuiltBy registry :=
      Operators.find?_of_build htest
    exact .single hbuilt

theorem Tree.builtFor_compileAll : (tree : Tree) → ∀ {ps : List ContextPredicate},
    (Tree.compileAll registry tree ()).result = .ok ps →
      BuiltFor registry (Tree.customKeys tree)
        ((Predicate.testsOfEach ps).flatMap ContextTest.built)
  | [], ps, h => by
    rw [Tree.compileAll] at h
    cases h
    exact .nil
  | condition :: conditions, ps, h => by
    rw [Tree.compileAll] at h
    obtain ⟨p, hp, h⟩ := Act.bind_eq_ok.1 h
    obtain ⟨ps', hps, h⟩ := Act.bind_eq_ok.1 h
    cases h
    rw [Tree.customKeys, Predicate.testsOfEach_cons, List.flatMap_append]
    exact (Condition.builtFor_compile condition hp).append (Tree.builtFor_compileAll conditions hps)

theorem Tree.builtFor_compileEach : (trees : List Tree) → ∀ {ps : List ContextPredicate},
    (Tree.compileEach registry trees ()).result = .ok ps →
      BuiltFor registry (Tree.customKeysOfEach trees)
        ((Predicate.testsOfEach ps).flatMap ContextTest.built)
  | [], ps, h => by
    rw [Tree.compileEach] at h
    cases h
    exact .nil
  | tree :: trees, ps, h => by
    rw [Tree.compileEach] at h
    obtain ⟨qs, hqs, h⟩ := Act.bind_eq_ok.1 h
    obtain ⟨ps', hps, h⟩ := Act.bind_eq_ok.1 h
    cases h
    rw [Tree.customKeysOfEach, Predicate.testsOfEach_cons, Predicate.tests_allOf,
      List.flatMap_append]
    exact (Tree.builtFor_compileAll tree hqs).append (Tree.builtFor_compileEach trees hps)

end

/-- **The custom tests in a predicate stand for the custom keys of its tree**, in order, and each was
built by the factory that is registered under its name. -/
theorem Tree.builtFor_compile {tree : Tree} {p : ContextPredicate}
    (h : (Tree.compile registry tree ()).result = .ok p) :
    BuiltFor registry (Tree.customKeys tree) p.built := by
  obtain ⟨ps, hps, h⟩ := Act.bind_eq_ok.1 h
  cases h
  rw [ContextPredicate.built, Predicate.tests_allOf]
  exact Tree.builtFor_compileAll tree hps

end PolicyDecision
