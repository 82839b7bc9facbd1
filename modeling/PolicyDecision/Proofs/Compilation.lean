import PolicyDecision.Checks
import PolicyDecision.Proofs.Meaning
import PolicyDecision.Proofs.Predicate

/-!
# Predicates mean what their trees mean

Making a predicate of a tree succeeds exactly when no custom key of the tree is at fault, and the
first fault in the order of the keys is the error otherwise; nothing is evaluated meanwhile. The
predicate that is made does what the tree says: it has the result of `Tree.holds`, leaves the
same state, and reaches the same leaves in the same order.

`Makes` is what each part of the compiler is shown to do, for the keys that it is responsible for.
It composes along `>>=`, so that every case of the induction over trees is an assembly of the
parts.
-/

namespace PolicyDecision

variable {α β : Type}

/-! ### What it is to make something -/

/-- The event is the building of a custom operator. -/
def Event.IsBuilding : Event → Prop
  | .built _ _ => True
  | _ => False

/-- Making something under these keys succeeds, with something good, only if none of them is at
fault, and fails only with the first fault. It builds custom operators and does nothing else. -/
structure Makes (registry : Registry) (keys : List CustomKey) (Good : α → Prop)
    (x : Audited α) : Prop where
  ok : ∀ a, (x ()).result = .ok a → (∀ key ∈ keys, registry.fault? key = none) ∧ Good a
  error : ∀ e, (x ()).result = .error e → keys.findSome? registry.fault? = some e
  trail : ∀ event ∈ (x ()).trail, event.IsBuilding

namespace Makes

variable {registry : Registry} {keys keys' : List CustomKey} {Good : α → Prop}

theorem pure {a : α} (h : Good a) : Makes registry [] Good (Pure.pure a : Audited α) where
  ok b hb := by
    cases hb
    exact ⟨by simp, h⟩
  error e he := nomatch he
  trail := by simp

theorem bind {Good' : β → Prop} {x : Audited α} {f : α → Audited β}
    (hx : Makes registry keys Good x) (hf : ∀ a, Good a → Makes registry keys' Good' (f a)) :
    Makes registry (keys ++ keys') Good' (x >>= f) where
  ok b hb := by
    obtain ⟨a, ha, hb⟩ := Act.bind_eq_ok.1 hb
    obtain ⟨hkeys, hgood⟩ := hx.ok a ha
    obtain ⟨hkeys', hgood'⟩ := (hf a hgood).ok b hb
    refine ⟨fun key hkey => ?_, hgood'⟩
    rcases List.mem_append.1 hkey with hkey | hkey
    · exact hkeys key hkey
    · exact hkeys' key hkey
  error e he := by
    rw [List.findSome?_append]
    rcases Act.bind_eq_error.1 he with he | ⟨a, ha, he⟩
    · rw [hx.error e he]
      rfl
    · obtain ⟨hkeys, hgood⟩ := hx.ok a ha
      rw [List.findSome?_eq_none_iff.2 hkeys, Option.none_or]
      exact (hf a hgood).error e he
  trail event hevent := by
    rcases Act.mem_trail_bind.1 hevent with hevent | ⟨a, ha, hevent⟩
    · exact hx.trail event hevent
    · exact (hf a (hx.ok a ha).2).trail event hevent

/-- What is made last may be put into a form that needs no further keys. -/
theorem map {Good' : β → Prop} {x : Audited α} {f : α → β} (hx : Makes registry keys Good x)
    (hf : ∀ a, Good a → Good' (f a)) :
    Makes registry keys Good' (x >>= fun a => Pure.pure (f a)) := by
  have h : Makes registry (keys ++ []) Good' (x >>= fun a => Pure.pure (f a)) :=
    hx.bind fun a ha => pure (hf a ha)
  rwa [List.append_nil] at h

/-- Making succeeds exactly when no key is at fault. -/
theorem ok_iff {x : Audited α} (hx : Makes registry keys Good x) :
    (∃ a, (x ()).result = .ok a) ↔ ∀ key ∈ keys, registry.fault? key = none := by
  constructor
  · rintro ⟨a, ha⟩
    exact (hx.ok a ha).1
  · intro hkeys
    cases hresult : (x ()).result with
    | ok a => exact ⟨a, rfl⟩
    | error e =>
      have hfault := hx.error e hresult
      rw [List.findSome?_eq_none_iff.2 hkeys] at hfault
      cases hfault

/-- Making fails exactly with the first fault. -/
theorem error_iff {x : Audited α} (hx : Makes registry keys Good x) {e : Error} :
    (x ()).result = .error e ↔ keys.findSome? registry.fault? = some e := by
  constructor
  · exact hx.error e
  · intro hfault
    cases hresult : (x ()).result with
    | ok a =>
      rw [List.findSome?_eq_none_iff.2 (hx.ok a hresult).1] at hfault
      cases hfault
    | error e' =>
      have hfault' := hx.error e' hresult
      rw [hfault] at hfault'
      cases hfault'
      rfl

/-- A custom operator is built, and its test answers what the operator does. -/
theorem build {ops : Operators α} {key : CustomKey} {name : String} {arg : Json}
    (hkey : registry.fault? key = ops.fault? name arg) :
    Makes registry [key] (fun test => ∀ subject, ops.ask name arg subject = test subject)
      (ops.build name arg) := by
  rw [Operators.fault?] at hkey
  rw [Operators.build]
  cases hfind : ops.find? name with
  | none =>
    rw [hfind] at hkey
    exact ⟨nofun, fun e he => by cases he; simpa using hkey, nofun⟩
  | some factory =>
    rw [hfind] at hkey
    constructor
    · intro test htest
      obtain ⟨-, -, htest⟩ := Act.bind_eq_ok.1 htest
      have hfactory : factory arg = .ok test := htest
      simp only [hfactory] at hkey
      refine ⟨by simpa using hkey, fun subject => ?_⟩
      rw [Operators.ask, hfind]
      simp only [hfactory]
      rfl
    · intro e he
      rcases Act.bind_eq_error.1 he with he | ⟨-, -, he⟩
      · cases he
      · have hfactory : factory arg = .error e := he
        simp only [hfactory] at hkey
        simpa using hkey
    · intro event hevent
      rcases Act.mem_trail_bind.1 hevent with hevent | ⟨-, -, hevent⟩
      · rw [List.mem_singleton.1 hevent]
        trivial
      · cases hevent

end Makes

/-! ### Restrictors -/

variable (registry : Registry)

theorem Clause.makes_compile (clause : Clause) :
    Makes registry clause.customKeys
      (fun p : EntityPredicate =>
        ∀ entity, p.eval entity = clause.holds registry.entityOps entity)
      (clause.compile registry.entityOps) := by
  cases clause with
  | id target =>
    apply Makes.pure
    intro entity
    rw [EntityPredicate.eval, Predicate.run_test, EntityTest.eval, Clause.holds]
  | subOf target =>
    apply Makes.pure
    intro entity
    rw [EntityPredicate.eval, Predicate.run_test, EntityTest.eval, Clause.holds]
  | custom name arg =>
    apply Makes.map (Makes.build rfl)
    intro test htest entity
    rw [EntityPredicate.eval, Predicate.run_test, EntityTest.eval, Clause.holds, htest]

theorem Clause.makes_compileEach (clauses : List Clause) :
    Makes registry (clauses.flatMap Clause.customKeys)
      (fun ps => ∀ entity, Predicate.runAll (EntityTest.eval entity) ps =
        Clause.allHold registry.entityOps entity clauses)
      (clauses.mapM (Clause.compile registry.entityOps)) := by
  induction clauses with
  | nil =>
    rw [List.mapM_nil]
    apply Makes.pure
    intro entity
    rw [Predicate.runAll_nil, Clause.allHold]
  | cons clause clauses ih =>
    rw [List.mapM_cons, List.flatMap_cons]
    apply Makes.bind (clause.makes_compile registry)
    intro p hp
    apply Makes.map ih
    intro ps hps entity
    have hp : p.run (EntityTest.eval entity) = _ := hp entity
    rw [Predicate.runAll_cons, Clause.allHold, hp, hps]

theorem Restrictor.makes_compile (restrictor : Restrictor) :
    Makes registry restrictor.customKeys
      (fun p : EntityPredicate =>
        ∀ entity, p.eval entity = restrictor.holds registry.entityOps entity)
      (restrictor.compile registry.entityOps) := by
  cases restrictor with
  | wildcard =>
    apply Makes.pure
    intro entity
    rw [EntityPredicate.eval, Predicate.run_constant, Restrictor.holds]
  | noOwner =>
    apply Makes.pure
    intro entity
    rw [EntityPredicate.eval, Predicate.run_constant, Restrictor.holds]
  | all clauses =>
    apply Makes.map (Clause.makes_compileEach registry clauses)
    intro ps hps entity
    rw [EntityPredicate.eval, Predicate.run_allOf, Restrictor.holds, hps]

/-- A wildcard becomes a constant and has no keys; it holds without asking for the requester. -/
theorem Restrictor.makes_compileRequester (restrictor : Restrictor) :
    Makes registry restrictor.customKeys
      (fun p : ContextPredicate =>
        ∀ context, p.eval context = (Condition.requester restrictor).holds registry context)
      (restrictor.compileRequester registry.entityOps) := by
  rw [Restrictor.compileRequester]
  split
  · next hwild =>
    cases restrictor with
    | wildcard =>
      apply Makes.pure
      intro context
      rw [ContextPredicate.eval, Predicate.run_constant, Condition.holds]
    | noOwner => cases hwild
    | all clauses => cases hwild
  · next hwild =>
    apply Makes.map (Restrictor.makes_compile registry restrictor)
    intro p hp context
    rw [ContextPredicate.eval, Predicate.run_test, ContextTest.eval, Condition.holds]
    · simp only [hp]
    · rintro rfl
      exact hwild rfl

/-! ### Trees -/

mutual

theorem Condition.makes_compile : (condition : Condition) →
    Makes registry condition.customKeys
      (fun p : ContextPredicate => ∀ context, p.eval context = condition.holds registry context)
      (condition.compile registry)
  | .requester restrictor => by
    rw [Condition.customKeys, Condition.compile]
    exact Restrictor.makes_compileRequester registry restrictor
  | .resourceId id => by
    rw [Condition.customKeys, Condition.compile]
    apply Makes.pure
    intro context
    rw [ContextPredicate.eval, Predicate.run_test, ContextTest.eval, Condition.holds]
  | .access allowed => by
    rw [Condition.customKeys, Condition.compile]
    apply Makes.pure
    intro context
    rw [ContextPredicate.eval, Predicate.run_test, ContextTest.eval, Condition.holds]
  | .not tree => by
    rw [Condition.customKeys, Condition.compile]
    apply Makes.map (Tree.makes_compileAll tree)
    intro ps hps context
    rw [ContextPredicate.eval, Predicate.run_not, Predicate.run_allOf, hps, Condition.holds]
  | .nor trees => by
    rw [Condition.customKeys, Condition.compile]
    apply Makes.map (Tree.makes_compileEach trees)
    intro ps hps context
    rw [ContextPredicate.eval, Predicate.run_not, Predicate.run_anyOf, (hps context).2,
      Condition.holds]
  | .or trees => by
    rw [Condition.customKeys, Condition.compile]
    apply Makes.map (Tree.makes_compileEach trees)
    intro ps hps context
    rw [ContextPredicate.eval, Predicate.run_anyOf, (hps context).2, Condition.holds]
  | .and trees => by
    rw [Condition.customKeys, Condition.compile]
    apply Makes.map (Tree.makes_compileEach trees)
    intro ps hps context
    rw [ContextPredicate.eval, Predicate.run_allOf, (hps context).1, Condition.holds]
  | .custom name arg => by
    rw [Condition.customKeys, Condition.compile]
    apply Makes.map (Makes.build rfl)
    intro test htest context
    rw [ContextPredicate.eval, Predicate.run_test, ContextTest.eval, Condition.holds, htest]

theorem Tree.makes_compileAll : (tree : Tree) →
    Makes registry (Tree.customKeys tree)
      (fun ps => ∀ context, Predicate.runAll (ContextTest.eval context) ps =
        Tree.holds registry context tree)
      (Tree.compileAll registry tree)
  | [] => by
    rw [Tree.customKeys, Tree.compileAll]
    apply Makes.pure
    intro context
    rw [Predicate.runAll_nil, Tree.holds]
  | condition :: conditions => by
    rw [Tree.customKeys, Tree.compileAll]
    apply Makes.bind (Condition.makes_compile condition)
    intro p hp
    apply Makes.map (Tree.makes_compileAll conditions)
    intro ps hps context
    have hp : p.run (ContextTest.eval context) = _ := hp context
    rw [Predicate.runAll_cons, Tree.holds, hp, hps]

theorem Tree.makes_compileEach : (trees : List Tree) →
    Makes registry (Tree.customKeysOfEach trees)
      (fun ps => ∀ context,
        Predicate.runAll (ContextTest.eval context) ps = Tree.allHold registry context trees ∧
        Predicate.runAny (ContextTest.eval context) ps = Tree.anyHolds registry context trees)
      (Tree.compileEach registry trees)
  | [] => by
    rw [Tree.customKeysOfEach, Tree.compileEach]
    refine Makes.pure fun context => ⟨?_, ?_⟩
    · rw [Predicate.runAll_nil, Tree.allHold]
    · rw [Predicate.runAny_nil, Tree.anyHolds]
  | tree :: trees => by
    rw [Tree.customKeysOfEach, Tree.compileEach]
    apply Makes.bind (Tree.makes_compileAll tree)
    intro ps hps
    refine Makes.map (Tree.makes_compileEach trees) fun qs hqs context => ⟨?_, ?_⟩
    · rw [Predicate.runAll_cons, Predicate.run_allOf, hps, (hqs context).1, Tree.allHold]
    · rw [Predicate.runAny_cons, Predicate.run_allOf, hps, (hqs context).2, Tree.anyHolds]

end

theorem Tree.makes_compile (tree : Tree) :
    Makes registry (Tree.customKeys tree)
      (fun p : ContextPredicate => ∀ context, p.eval context = Tree.holds registry context tree)
      (Tree.compile registry tree) := by
  apply Makes.map (Tree.makes_compileAll registry tree)
  intro ps hps context
  rw [ContextPredicate.eval, Predicate.run_allOf, hps]

/-! ### Compiler correctness -/

/-- Without a memo, a predicate is made anew each time. -/
theorem Checks.compile_memoless (tree : Tree) :
    Checks.compile tree ⟨registry, none⟩ =
      ⟨(Tree.compile registry tree ()).result, ⟨registry, none⟩,
        (Tree.compile registry tree ()).trail⟩ := rfl

/-- **Compiler correctness.** Without a memo, a tree is made a predicate exactly when none of its
custom keys is at fault, and else the first fault is the error; only custom operators are built
meanwhile. The predicate is the reading of the tree, in every state: in its result, in the state
it leaves, and in its trail, which names the leaves that were reached in order. -/
theorem Checks.compile_reads_tree (tree : Tree) :
    let made := Checks.compile tree ⟨registry, none⟩
    ((∃ p, made.result = .ok p) ↔ ∀ key ∈ Tree.customKeys tree, registry.fault? key = none) ∧
    (∀ e, made.result = .error e ↔
      (Tree.customKeys tree).findSome? registry.fault? = some e) ∧
    (∀ event ∈ made.trail, event.IsBuilding) ∧
    made.state = ⟨registry, none⟩ ∧
    (∀ p, made.result = .ok p → ∀ context, p.eval context = Tree.holds registry context tree) := by
  intro made
  have hmakes := Tree.makes_compile registry tree
  have hmade := Checks.compile_memoless registry tree
  rw [show made = _ from hmade]
  exact ⟨hmakes.ok_iff, fun e => hmakes.error_iff, hmakes.trail, rfl,
    fun p hp => (hmakes.ok p hp).2⟩

/-- A failing operator below `nor`: the predicate is made, and its error is no verdict. -/
theorem Checks.compile_reads_tree_below_nor :
    let fails : Factory Context := fun _ => .ok fun _ => .error .io
    let registry : Registry := { contextOps := ⟨Condition.builtins, [("fails", fails)]⟩ }
    let tree : Tree :=
      [.nor [[.access (.one "read"), .requester .wildcard], [.custom "fails" .null], []]]
    ∃ p, (Checks.compile tree ⟨registry, none⟩).result = .ok p ∧
      (p.eval ⟨⟨⟨0⟩⟩, .one "write", ⟨⟨1⟩⟩⟩ ⟨⟨.empty, none⟩, none⟩).result = .error .io := by
  intro fails registry tree
  obtain ⟨hok, -, -, -, hmeans⟩ := Checks.compile_reads_tree registry tree
  have hkeys : ∀ key ∈ Tree.customKeys tree, registry.fault? key = none := by
    intro key hkey
    rw [List.mem_singleton.1 (show key ∈ [CustomKey.condition "fails" .null] from hkey)]
    rfl
  obtain ⟨p, hp⟩ := hok.2 hkeys
  refine ⟨p, hp, ?_⟩
  rw [hmeans p hp]
  rfl

end PolicyDecision
