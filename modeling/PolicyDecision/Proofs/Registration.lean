import PolicyDecision.Proofs.Operators
import PolicyDecision.Proofs.Provenance
import PolicyDecision.Proofs.Run

/-!
# Operators that are replaced

A batch of operators that succeeds makes an engine forget the predicates that it remembers, as does a
change of the policies. A batch that fails makes it forget nothing, though the operators before the
first reserved name are registered. So after a failed batch a remembered predicate may hold a test that
was built by an operator which the batch has replaced.

That is the only way. After any operations, each custom test of a predicate was built by the operator
that is registered under its name, unless a failed batch has replaced that operator and nothing has been
forgotten since (`Engine.compileCheck_built`). The exception does occur (`Engine.compileCheck_outdated`).
-/

namespace PolicyDecision

/-! ### What happens to checks -/

namespace Checks

theorem invalidate_apply (checks : Checks) :
    (invalidate checks).result = .ok () ∧
      (invalidate checks).state = { checks with memo := checks.memo.map Memo.clear } := by
  obtain ⟨registry, memo⟩ := checks
  cases memo <;> exact ⟨rfl, rfl⟩

theorem result_invalidate (register : Act Checks Unit) (checks : Checks) :
    ((register >>= fun _ => invalidate) checks).result = (register checks).result := by
  cases h : (register checks).result with
  | ok a => rw [Act.bind_ok h, (invalidate_apply _).1]
  | error e => rw [Act.bind_error h]

theorem state_invalidate_of_ok {register : Act Checks Unit} {checks : Checks}
    (h : (register checks).result = .ok ()) :
    ((register >>= fun _ => invalidate) checks).state =
      ⟨(register checks).state.registry, (register checks).state.memo.map Memo.clear⟩ := by
  rw [Act.bind_ok h, (invalidate_apply _).2]

theorem state_invalidate_of_error {register : Act Checks Unit} {checks : Checks} {e : Error}
    (h : (register checks).result = .error e) :
    ((register >>= fun _ => invalidate) checks).state = (register checks).state := by
  rw [Act.bind_error h]

/-- Nothing is remembered any more. -/
theorem remembers_clear {registry : Registry} {P : String → ContextPredicate → Prop}
    (memo : Option (Memo String ContextPredicate)) :
    Remembers registry P ⟨registry, memo.map Memo.clear⟩ := by
  refine ⟨rfl, fun cleared hcleared => ?_⟩
  obtain ⟨old, -, rfl⟩ := Option.map_eq_some_iff.1 hcleared
  exact Memo.each_clear

/-- A batch that succeeds leaves nothing remembered. -/
theorem remembers_addEntityOps {P : String → ContextPredicate → Prop} {checks : Checks}
    {batch : List (String × Factory Entity)}
    (h : (Operators.extend batch checks.registry.entityOps).result = .ok ()) :
    Remembers { checks.registry with
        entityOps := (Operators.extend batch checks.registry.entityOps).state } P
      (addEntityOps batch checks).state := by
  have hregister : (registerEntityOps batch checks).result = .ok () := h
  rw [addEntityOps, state_invalidate_of_ok hregister]
  exact remembers_clear checks.memo

theorem remembers_addContextOps {P : String → ContextPredicate → Prop} {checks : Checks}
    {batch : List (String × Factory Context)}
    (h : (Operators.extend batch checks.registry.contextOps).result = .ok ()) :
    Remembers { checks.registry with
        contextOps := (Operators.extend batch checks.registry.contextOps).state } P
      (addContextOps batch checks).state := by
  have hregister : (registerContextOps batch checks).result = .ok () := h
  rw [addContextOps, state_invalidate_of_ok hregister]
  exact remembers_clear checks.memo

theorem Remembers.invalidate {registry : Registry} {P : String → ContextPredicate → Prop} {checks : Checks}
    (h : Remembers registry P checks) : Remembers registry P (invalidate checks).state := by
  rw [(invalidate_apply checks).2, ← h.registry_eq]
  exact remembers_clear checks.memo

end Checks

namespace Engine

/-! ### Which operations matter -/

/-- The operation makes the engine forget predicates: it changes policies, or it is a batch without a
reserved name. -/
def Operation.Forgets (registry : Registry) : Operation → Prop
  | .upsertPolicy _ | .deletePolicy _ => True
  | .addEntityOps batch => registry.entityOps.firstReserved batch = none
  | .addContextOps batch => registry.contextOps.firstReserved batch = none
  | _ => False

/-- The operation is a batch that fails, after it has registered the operator of this key. -/
def Operation.Replaces (registry : Registry) (key : CustomKey) : Operation → Prop
  | .addEntityOps batch =>
    registry.entityOps.firstReserved batch ≠ none ∧
      ∃ name arg, key = .clause name arg ∧ name ∈ (registry.entityOps.accepted batch).map Prod.fst
  | .addContextOps batch =>
    registry.contextOps.firstReserved batch ≠ none ∧
      ∃ name arg, key = .condition name arg ∧
        name ∈ (registry.contextOps.accepted batch).map Prod.fst
  | _ => False

/-- A failed batch has replaced the operator of this key, and nothing has been forgotten since. -/
def Outdated (registry : Registry) (operations : List Operation) (key : CustomKey) : Prop :=
  ∃ before batch after, operations = before ++ batch :: after ∧
    batch.Replaces registry key ∧ ∀ operation ∈ after, ¬operation.Forgets registry

section Outdated

variable {registry : Registry} {operations : List Operation} {operation : Operation}
  {key : CustomKey}

theorem Outdated.snoc (h : Outdated registry operations key)
    (hkeeps : ¬operation.Forgets registry) : Outdated registry (operations ++ [operation]) key := by
  obtain ⟨before, batch, after, rfl, hreplaces, hafter⟩ := h
  refine ⟨before, batch, after ++ [operation], by simp, hreplaces, ?_⟩
  intro later hlater
  rcases List.mem_append.1 hlater with hlater | hlater
  · exact hafter later hlater
  · rwa [List.mem_singleton.1 hlater]

theorem outdated_last (h : operation.Replaces registry key) :
    Outdated registry (operations ++ [operation]) key :=
  ⟨operations, operation, [], rfl, h, by simp⟩

theorem Operation.Forgets.not_replaces (h : operation.Forgets registry) :
    ¬operation.Replaces registry key := by
  intro hreplaces
  cases operation with
  | addEntityOps batch => exact hreplaces.1 h
  | addContextOps batch => exact hreplaces.1 h
  | _ => exact hreplaces

/-- Nothing is outdated after an operation that forgets. -/
theorem not_outdated_of_forgets (h : operation.Forgets registry) :
    ¬Outdated registry (operations ++ [operation]) key := by
  rintro ⟨before, batch, after, hsplit, hreplaces, hafter⟩
  -- The last operation is the failed batch itself, or comes after it.
  rcases snoc_eq_iff.1 hsplit with ⟨-, rfl, -⟩ | ⟨rest, rfl, -⟩
  · exact h.not_replaces hreplaces
  · exact hafter operation (by simp) h

end Outdated

/-! ### The invariant -/

/-- The custom tests of the predicate stand for the custom keys of a tree that is written as the key
says; and each of them was built by the operator registered now, or is outdated. -/
def Accounts (now : Registry) (outdated : CustomKey → Prop) (key : String) (p : ContextPredicate) :
    Prop :=
  (∃ u, Tree.shadowedBuiltin? u = none ∧ (Tree.toJson u).compact = key ∧
    p.built.map BuiltTest.key = Tree.customKeys u) ∧
  ∀ test ∈ p.built, test.BuiltBy now ∨ outdated test.key

/-- The engine after these operations, when it started with these operators. The reserved names are
still the same, and what is remembered is accounted for. -/
structure Tracks (registry : Registry) (operations : List Operation) (engine : Engine) : Prop where
  entityNames : engine.checks.registry.entityOps.reserved = registry.entityOps.reserved
  contextNames : engine.checks.registry.contextOps.reserved = registry.contextOps.reserved
  remembers : engine.checks.Remembers engine.checks.registry
    (Accounts engine.checks.registry (Outdated registry operations))

variable {registry : Registry} {operations : List Operation} {engine : Engine}

theorem tracks_new (store : Store) (config : Config) (registry : Registry) :
    Tracks registry [] (new store config registry) :=
  ⟨rfl, rfl, Checks.remembers_new registry config.cache⟩

theorem Accounts.mono {now now' : Registry} {outdated outdated' : CustomKey → Prop} {key : String}
    {p : ContextPredicate} (h : Accounts now outdated key p)
    (hbuilt : ∀ test : BuiltTest, test.BuiltBy now → test.BuiltBy now' ∨ outdated' test.key)
    (houtdated : ∀ key, outdated key → outdated' key) : Accounts now' outdated' key p := by
  refine ⟨h.1, fun test htest => ?_⟩
  rcases h.2 test htest with hnow | hold
  · exact hbuilt test hnow
  · exact .inr (houtdated _ hold)

/-- An operation that forgets nothing and leaves the operators alone, and that remembers nothing but
what is accounted for. -/
theorem Tracks.kept (h : Tracks registry operations engine) {operation : Operation} {next : Engine}
    (hkeeps : ¬operation.Forgets registry)
    (hnext : next.checks.Remembers engine.checks.registry
      (Accounts engine.checks.registry (Outdated registry operations))) :
    Tracks registry (operations ++ [operation]) next := by
  have hregistry := hnext.registry_eq
  refine ⟨hregistry ▸ h.entityNames, hregistry ▸ h.contextNames, ?_⟩
  rw [hregistry]
  apply hnext.mono
  intro key p hp
  exact hp.mono (fun _ => .inl) fun _ hold => hold.snoc hkeeps

/-- An operation after which nothing is remembered. -/
theorem Tracks.forgotten (h : Tracks registry operations engine) {operation : Operation}
    {next : Engine} {now : Registry} {memo : Option (Memo String ContextPredicate)}
    (hnext : next.checks = ⟨now, memo.map Memo.clear⟩)
    (hentity : now.entityOps.reserved = engine.checks.registry.entityOps.reserved)
    (hcontext : now.contextOps.reserved = engine.checks.registry.contextOps.reserved) :
    Tracks registry (operations ++ [operation]) next := by
  constructor <;> rw [hnext]
  · exact hentity.trans h.entityNames
  · exact hcontext.trans h.contextNames
  · exact Checks.remembers_clear memo

/-- A batch that fails: it forgets nothing, and the tests that it leaves without their operator are
outdated from then on. -/
theorem Tracks.cut_short (h : Tracks registry operations engine) {operation : Operation}
    {next : Engine} {now : Registry} (hkeeps : ¬operation.Forgets registry)
    (hnext : next.checks = ⟨now, engine.checks.memo⟩)
    (hentity : now.entityOps.reserved = engine.checks.registry.entityOps.reserved)
    (hcontext : now.contextOps.reserved = engine.checks.registry.contextOps.reserved)
    (hbuilt : ∀ test : BuiltTest, test.BuiltBy engine.checks.registry →
      test.BuiltBy now ∨ operation.Replaces registry test.key) :
    Tracks registry (operations ++ [operation]) next := by
  constructor <;> rw [hnext]
  · exact hentity.trans h.entityNames
  · exact hcontext.trans h.contextNames
  · refine ⟨rfl, fun memo hmemo => (h.remembers.memo memo hmemo).mono fun key p hp => ?_⟩
    refine hp.mono (fun test htest => ?_) fun _ hold => hold.snoc hkeeps
    exact (hbuilt test htest).imp_right outdated_last

/-- Compiling keeps what is remembered accounted for. -/
theorem ensures_compile_accounts {now : Registry} {outdated : CustomKey → Prop} (tree : Tree) :
    Act.Ensures (Checks.Remembers now (Accounts now outdated))
      (Checks.Comes now (Accounts now outdated) tree) (Checks.compile tree) := by
  apply Checks.ensures_compile
  intro p hunshadowed hp
  have hbuilt := Tree.builtFor_compile hp
  exact ⟨⟨tree, hunshadowed, rfl, hbuilt.keys_eq⟩, fun test htest => .inl (hbuilt.builtBy test htest)⟩

theorem Tracks.addEntityOps (h : Tracks registry operations engine)
    (batch : List (String × Factory Entity)) :
    Tracks registry (operations ++ [.addEntityOps batch]) (Engine.addEntityOps batch engine).state := by
  have hreserved := Operators.extend_reserved batch engine.checks.registry.entityOps
  cases hresult : (Checks.registerEntityOps batch engine.checks).result with
  | ok a => exact h.forgotten (Checks.state_invalidate_of_ok hresult) hreserved rfl
  | error e =>
    -- The run is told by the registry that it started with, which has the same reserved names.
    have hfails : registry.entityOps.firstReserved batch ≠ none :=
      Operators.firstReserved_congr h.entityNames ▸ Operators.firstReserved_of_error hresult
    refine h.cut_short hfails (Checks.state_invalidate_of_error hresult) hreserved rfl ?_
    intro test htest
    cases test with
    | condition name arg test => exact .inl htest
    | clause name arg test =>
      obtain ⟨factory, hfind, htest⟩ := htest
      by_cases hname : name ∈ (registry.entityOps.accepted batch).map Prod.fst
      · exact .inr ⟨hfails, name, arg, rfl, hname⟩
      · rw [← Operators.accepted_congr h.entityNames] at hname
        exact .inl ⟨factory, (Operators.find?_extend_of_not_accepted hname).trans hfind, htest⟩

theorem Tracks.addContextOps (h : Tracks registry operations engine)
    (batch : List (String × Factory Context)) :
    Tracks registry (operations ++ [.addContextOps batch])
      (Engine.addContextOps batch engine).state := by
  have hreserved := Operators.extend_reserved batch engine.checks.registry.contextOps
  cases hresult : (Checks.registerContextOps batch engine.checks).result with
  | ok a => exact h.forgotten (Checks.state_invalidate_of_ok hresult) rfl hreserved
  | error e =>
    have hfails : registry.contextOps.firstReserved batch ≠ none :=
      Operators.firstReserved_congr h.contextNames ▸ Operators.firstReserved_of_error hresult
    refine h.cut_short hfails (Checks.state_invalidate_of_error hresult) rfl hreserved ?_
    intro test htest
    cases test with
    | clause name arg test => exact .inl htest
    | condition name arg test =>
      obtain ⟨factory, hfind, htest⟩ := htest
      by_cases hname : name ∈ (registry.contextOps.accepted batch).map Prod.fst
      · exact .inr ⟨hfails, name, arg, rfl, hname⟩
      · rw [← Operators.accepted_congr h.contextNames] at hname
        exact .inl ⟨factory, (Operators.find?_extend_of_not_accepted hname).trans hfind, htest⟩

/-- **One operation.** -/
theorem Tracks.perform (h : Tracks registry operations engine) (operation : Operation) :
    Tracks registry (operations ++ [operation]) (operation.perform engine) := by
  cases operation with
  | createEntity fresh parents => exact h.kept id h.remembers
  | upsertEntity entity => exact h.kept id h.remembers
  | addParent target parent => exact h.kept id h.remembers
  | upsertResource resource => exact h.kept id h.remembers
  | deleteResource id' => exact h.kept id h.remembers
  | ancestors id' includeSelf => exact h.kept id h.remembers
  | upsertPolicy policy => exact h.forgotten (Checks.invalidate_apply engine.checks).2 rfl rfl
  | deletePolicy id' => exact h.forgotten (Checks.invalidate_apply engine.checks).2 rfl rfl
  | addEntityOps batch => exact h.addEntityOps batch
  | addContextOps batch => exact h.addContextOps batch
  | compileCheck tree =>
    exact h.kept id ((ensures_compile_accounts tree).keeps engine.checks h.remembers)
  | check request compounder =>
    refine h.kept id ((keeps_check_of_checks (fun tree => ?_) request compounder).keeps engine
      h.remembers)
    exact (ensures_compile_accounts tree).forget

/-- **Every run.** -/
theorem tracks_run (store : Store) (config : Config) (registry : Registry)
    (operations : List Operation) :
    Tracks registry operations ((new store config registry).run operations) := by
  induction operations using List.reverseRecOn with
  | nil => exact tracks_new store config registry
  | append_singleton operations operation ih =>
    rw [run, List.foldl_append]
    exact ih.perform operation

/-! ### The tests of a predicate -/

/-- **Which operators built the tests of a predicate.** After any operations, the custom tests of the
predicate that compiling a tree comes to stand for the custom keys of the tree. Each was built by the
operator that is registered under its name, unless a failed batch has replaced that operator and
nothing has been forgotten since. -/
theorem compileCheck_built (store : Store) (config : Config) (registry : Registry)
    (operations : List Operation) (tree : Tree) :
    let engine := (new store config registry).run operations
    ∀ p, (compileCheck tree engine).result = .ok p →
      (p.built.map BuiltTest.key).Perm (Tree.customKeys tree) ∧
      ∀ test ∈ p.built,
        test.BuiltBy engine.checks.registry ∨ Outdated registry operations test.key := by
  intro engine p hp
  have htracks : Tracks registry operations engine := tracks_run store config registry operations
  have hcomes := (ensures_compile_accounts tree).result engine.checks htracks.remembers
  rw [show (Checks.compile tree engine.checks).result = .ok p from hp] at hcomes
  cases hcomes with
  | found hunshadowed hfound =>
    obtain ⟨⟨u, hunshadowed', hwritten, hkeys⟩, hbuilt⟩ := hfound
    refine ⟨?_, hbuilt⟩
    rw [hkeys]
    exact (Tree.alike_of_compact_eq hunshadowed' hunshadowed hwritten).customKeys
  | made hmade =>
    have hbuilt := Tree.builtFor_compile hmade
    exact ⟨.of_eq hbuilt.keys_eq, fun test htest => .inl (hbuilt.builtBy test htest)⟩

/-- Holds of everything, and of nothing. -/
def verdictOp (verdict : Bool) : Factory Context := fun _ => .ok fun _ => .ok verdict

/-- An operator is registered, and compiled; then a batch replaces it and fails. -/
def replacement : List Operation :=
  [.addContextOps [("flag", verdictOp true)], .compileCheck [.custom "flag" .null],
    .addContextOps [("flag", verdictOp false), ("access", verdictOp true)]]

/-- Once a policy is deleted, the predicate is made anew, with the operator that is registered. -/
theorem compileCheck_built_again :
    let operations := replacement ++ [.deletePolicy ⟨⟨7⟩⟩]
    let engine := (new {} { cache := { enabled := true } } {}).run operations
    ∃ p, (compileCheck [.custom "flag" .null] engine).result = .ok p ∧
      ∀ test ∈ p.built, test.BuiltBy engine.checks.registry := by
  intro operations engine
  refine ⟨_, rfl, fun test htest => ?_⟩
  obtain ⟨-, hbuilt⟩ := compileCheck_built {} { cache := { enabled := true } } {} operations
    [.custom "flag" .null] _ rfl
  exact (hbuilt test htest).resolve_right (not_outdated_of_forgets trivial)

/-- Otherwise the predicate is found, and its test was built by the operator that was replaced. -/
theorem compileCheck_outdated :
    let engine := (new {} { cache := { enabled := true } } {}).run replacement
    ∃ p test, (compileCheck [.custom "flag" .null] engine).result = .ok p ∧
      test ∈ p.built ∧ ¬test.BuiltBy engine.checks.registry := by
  intro engine
  refine ⟨_, _, rfl, List.mem_singleton.2 rfl, ?_⟩
  rintro ⟨factory, hfind, htest⟩
  cases Option.some.inj (hfind.symm.trans (rfl : _ = some (verdictOp false)))
  have hverdict : Except.ok (ε := Error) false = Except.ok true :=
    congrFun (Except.ok.inj htest) ⟨⟨⟨0⟩⟩, .one "read", ⟨⟨0⟩⟩⟩
  cases hverdict

end Engine
end PolicyDecision
