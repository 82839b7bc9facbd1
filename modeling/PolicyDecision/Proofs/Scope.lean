import PolicyDecision.Proofs.Reserved

/-!
# A tree sees the operators that it names

Compiling looks up the custom keys of a tree and nothing else: a clause among the operators for restrictors, a
condition among those for conditions. Two registries that agree there, key by key (`Registry.AgreeAt`), compile
the tree alike, whatever else is registered (`Tree.compile_congr`). A name may be registered in one place and
stand in the other; it is missing all the same.

Registering operators under other names leaves a registry as it is at the keys of a tree
(`Registry.agreeAt_after`), so it makes no difference to the tree (`Checks.compile_sees`).
-/

namespace PolicyDecision

/-! ### Registries and keys -/

namespace Registry

/-- The registries have the same operator under the name of the key, among those for its place. -/
def AgreeAt (registry registry' : Registry) : CustomKey → Prop
  | .clause name _ => registry.entityOps.find? name = registry'.entityOps.find? name
  | .condition name _ => registry.contextOps.find? name = registry'.contextOps.find? name

/-- There is an operator under the name of the key, among those for its place. -/
def Has (registry : Registry) : CustomKey → Prop
  | .clause name _ => registry.entityOps.contains name
  | .condition name _ => registry.contextOps.contains name

/-- The registry after some calls for each kind of operators. -/
def after (registry : Registry) (entityCalls : List (Operators.Call Entity))
    (contextCalls : List (Operators.Call Context)) : Registry where
  entityOps := registry.entityOps.after entityCalls
  contextOps := registry.contextOps.after contextCalls

end Registry

/-- The calls try to register an operator under this name. -/
def Operators.Mentions {α : Type} (calls : List (Call α)) (name : String) : Prop :=
  ∃ call ∈ calls, name ∈ call.batch.map Prod.fst

/-- The calls for its place try to register an operator under the name of the key. -/
def CustomKey.MentionedBy (entityCalls : List (Operators.Call Entity))
    (contextCalls : List (Operators.Call Context)) : CustomKey → Prop
  | .clause name _ => Operators.Mentions entityCalls name
  | .condition name _ => Operators.Mentions contextCalls name

namespace Operators

variable {α : Type} {ops ops' : Operators α} {name : String}

/-- A call leaves the operators under other names. -/
theorem find?_perform {call : Call α} (h : name ∉ call.batch.map Prod.fst) :
    (call.perform ops).state.find? name = ops.find? name := by
  rw [call.perform_eq]
  apply find?_extend_of_not_accepted
  intro haccepted
  obtain ⟨entry, hentry, rfl⟩ := List.mem_map.1 haccepted
  exact h (List.mem_map_of_mem ((List.takeWhile_subset _) hentry))

/-- **Calls leave the operators under other names.** -/
theorem find?_after {calls : List (Call α)} (h : ¬Mentions calls name) :
    (ops.after calls).find? name = ops.find? name := by
  induction calls generalizing ops with
  | nil => rfl
  | cons call calls ih =>
    have hcall : name ∉ call.batch.map Prod.fst := fun hname => h ⟨call, List.mem_cons_self, hname⟩
    have hcalls : ¬Mentions calls name := by
      rintro ⟨later, hlater, hname⟩
      exact h ⟨later, List.mem_cons_of_mem call hlater, hname⟩
    rw [after_cons, ih hcalls, find?_perform hcall]

theorem build_congr (h : ops.find? name = ops'.find? name) (arg : Json) :
    ops.build name arg = ops'.build name arg := by
  rw [build, h, build]

end Operators

variable {registry registry' : Registry} {key : CustomKey} {tree : Tree}

theorem Registry.agreeAt_after {entityCalls : List (Operators.Call Entity)}
    {contextCalls : List (Operators.Call Context)} (h : ¬key.MentionedBy entityCalls contextCalls) :
    registry.AgreeAt (registry.after entityCalls contextCalls) key := by
  cases key with
  | clause name arg => exact (Operators.find?_after h).symm
  | condition name arg => exact (Operators.find?_after h).symm

theorem Registry.fault?_of_not_has (h : ¬registry.Has key) :
    registry.fault? key = some (.unknownOperator key.name) := by
  cases key with
  | clause name arg =>
    have hfind : registry.entityOps.find? name = none := by simpa [Has, Operators.contains] using h
    rw [fault?, Operators.fault?, hfind, CustomKey.name]
  | condition name arg =>
    have hfind : registry.contextOps.find? name = none := by simpa [Has, Operators.contains] using h
    rw [fault?, Operators.fault?, hfind, CustomKey.name]

/-! ### Compiling -/

theorem Clause.compile_congr {clause : Clause}
    (h : ∀ key ∈ clause.customKeys, registry.AgreeAt registry' key) :
    clause.compile registry.entityOps = clause.compile registry'.entityOps := by
  cases clause with
  | id target => rfl
  | subOf target => rfl
  | custom name arg =>
    have hfind : registry.entityOps.find? name = registry'.entityOps.find? name :=
      h (.clause name arg) List.mem_cons_self
    rw [compile, compile, Operators.build_congr hfind]

theorem Clause.compileEach_congr {clauses : List Clause}
    (h : ∀ key ∈ clauses.flatMap Clause.customKeys, registry.AgreeAt registry' key) :
    clauses.mapM (Clause.compile registry.entityOps) = clauses.mapM (Clause.compile registry'.entityOps) := by
  induction clauses with
  | nil => rfl
  | cons clause clauses ih =>
    rw [List.flatMap_cons] at h
    obtain ⟨hclause, hclauses⟩ := List.forall_mem_append.1 h
    rw [List.mapM_cons, List.mapM_cons, Clause.compile_congr hclause, ih hclauses]

theorem Restrictor.compile_congr {restrictor : Restrictor}
    (h : ∀ key ∈ restrictor.customKeys, registry.AgreeAt registry' key) :
    restrictor.compile registry.entityOps = restrictor.compile registry'.entityOps := by
  cases restrictor with
  | wildcard => rfl
  | noOwner => rfl
  | all clauses => rw [compile, compile, Clause.compileEach_congr h]

mutual

theorem Condition.compile_congr : (condition : Condition) →
    (∀ key ∈ condition.customKeys, registry.AgreeAt registry' key) →
    condition.compile registry = condition.compile registry'
  | .requester restrictor, h => by
    rw [Condition.customKeys] at h
    rw [Condition.compile, Condition.compile, Restrictor.compileRequester, Restrictor.compileRequester,
      Restrictor.compile_congr h]
  | .resourceId id, _ => by rw [Condition.compile, Condition.compile]
  | .access allowed, _ => by rw [Condition.compile, Condition.compile]
  | .not tree, h => by
    rw [Condition.customKeys] at h
    rw [Condition.compile, Condition.compile, Tree.compileAll_congr tree h]
  | .nor trees, h => by
    rw [Condition.customKeys] at h
    rw [Condition.compile, Condition.compile, Tree.compileEach_congr trees h]
  | .or trees, h => by
    rw [Condition.customKeys] at h
    rw [Condition.compile, Condition.compile, Tree.compileEach_congr trees h]
  | .and trees, h => by
    rw [Condition.customKeys] at h
    rw [Condition.compile, Condition.compile, Tree.compileEach_congr trees h]
  | .custom name arg, h => by
    rw [Condition.customKeys] at h
    have hfind : registry.contextOps.find? name = registry'.contextOps.find? name :=
      h (.condition name arg) List.mem_cons_self
    rw [Condition.compile, Condition.compile, Operators.build_congr hfind]

theorem Tree.compileAll_congr : (tree : Tree) →
    (∀ key ∈ Tree.customKeys tree, registry.AgreeAt registry' key) →
    Tree.compileAll registry tree = Tree.compileAll registry' tree
  | [], _ => by rw [Tree.compileAll, Tree.compileAll]
  | condition :: conditions, h => by
    rw [Tree.customKeys] at h
    obtain ⟨hcondition, hconditions⟩ := List.forall_mem_append.1 h
    rw [Tree.compileAll, Tree.compileAll, Condition.compile_congr condition hcondition,
      Tree.compileAll_congr conditions hconditions]

theorem Tree.compileEach_congr : (trees : List Tree) →
    (∀ key ∈ Tree.customKeysOfEach trees, registry.AgreeAt registry' key) →
    Tree.compileEach registry trees = Tree.compileEach registry' trees
  | [], _ => by rw [Tree.compileEach, Tree.compileEach]
  | tree :: trees, h => by
    rw [Tree.customKeysOfEach] at h
    obtain ⟨htree, htrees⟩ := List.forall_mem_append.1 h
    rw [Tree.compileEach, Tree.compileEach, Tree.compileAll_congr tree htree,
      Tree.compileEach_congr trees htrees]

end

/-- **Registries that agree at the custom keys of a tree** compile it alike. -/
theorem Tree.compile_congr (h : ∀ key ∈ Tree.customKeys tree, registry.AgreeAt registry' key) :
    Tree.compile registry tree = Tree.compile registry' tree := by
  rw [Tree.compile, Tree.compile, Tree.compileAll_congr tree h]

/-! ### Outcomes -/

/-- With either registry the tree is refused with the same error, or made predicates that answer the same
to every request, in every state; and the same operators are built meanwhile. -/
structure Tree.CompilesAlike (tree : Tree) (registry registry' : Registry) : Prop where
  fails_iff : ∀ e, (Checks.compile tree ⟨registry, none⟩).result = .error e ↔
    (Checks.compile tree ⟨registry', none⟩).result = .error e
  eval : ∀ p p', (Checks.compile tree ⟨registry, none⟩).result = .ok p →
    (Checks.compile tree ⟨registry', none⟩).result = .ok p' →
    ∀ context inquiry, p.eval context inquiry = p'.eval context inquiry
  trail : (Checks.compile tree ⟨registry, none⟩).trail = (Checks.compile tree ⟨registry', none⟩).trail

theorem Tree.compilesAlike (h : ∀ key ∈ Tree.customKeys tree, registry.AgreeAt registry' key) :
    Tree.CompilesAlike tree registry registry' := by
  have hresult : (Checks.compile tree ⟨registry, none⟩).result =
      (Checks.compile tree ⟨registry', none⟩).result := by
    rw [Checks.compile_memoless, Checks.compile_memoless, Tree.compile_congr h]
  refine ⟨fun e => by rw [hresult], ?_, ?_⟩
  · intro p p' hp hp' context inquiry
    rw [hresult] at hp
    cases hp.symm.trans hp'
    rfl
  · rw [Checks.compile_memoless, Checks.compile_memoless, Tree.compile_congr h]

/-- A tree with a key whose operator is missing is refused, for the first key that is at fault. -/
theorem Tree.compile_fails_of_not_has (hkey : key ∈ Tree.customKeys tree) (h : ¬registry.Has key) :
    ∃ first ∈ Tree.customKeys tree, ∃ e, registry.fault? first = some e ∧
      (Tree.compile registry tree ()).result = .error e := by
  have hmakes := Tree.makes_compile registry tree
  cases hfirst : (Tree.customKeys tree).findSome? registry.fault? with
  | none =>
    have hnone := List.findSome?_eq_none_iff.1 hfirst key hkey
    rw [Registry.fault?_of_not_has h] at hnone
    cases hnone
  | some e =>
    obtain ⟨first, hmem, hfault⟩ := List.exists_of_findSome?_eq_some hfirst
    exact ⟨first, hmem, e, hfault, hmakes.error_iff.2 hfirst⟩

/-- **A tree sees the operators that it names, each in its own place.** Registries that agree at its custom
keys compile it alike. Where an operator is missing it is refused, whatever is registered under that name in
the other place; if no operator that is there refuses its argument, the error names a missing one. Calls that
do not name its keys in their places make no difference to it, and if it has no custom keys, none do. -/
theorem Checks.compile_sees (tree : Tree) (registry : Registry) :
    (∀ registry', (∀ key ∈ Tree.customKeys tree, registry.AgreeAt registry' key) →
        Tree.CompilesAlike tree registry registry') ∧
      (∀ key ∈ Tree.customKeys tree, ¬registry.Has key →
        (∃ e, (compile tree ⟨registry, none⟩).result = .error e) ∧
          ((∀ other ∈ Tree.customKeys tree, registry.Has other → registry.fault? other = none) →
            ∃ missing ∈ Tree.customKeys tree, ¬registry.Has missing ∧
              (compile tree ⟨registry, none⟩).result = .error (.unknownOperator missing.name))) ∧
      (∀ entityCalls contextCalls,
        (∀ key ∈ Tree.customKeys tree, ¬key.MentionedBy entityCalls contextCalls) →
        Tree.CompilesAlike tree registry (registry.after entityCalls contextCalls)) ∧
      (Tree.customKeys tree = [] → ∀ entityCalls contextCalls,
        Tree.CompilesAlike tree registry (registry.after entityCalls contextCalls)) := by
  refine ⟨fun registry' => Tree.compilesAlike, ?_, ?_, ?_⟩
  · intro key hkey hmissing
    obtain ⟨first, hfirst, e, hfault, hresult⟩ := Tree.compile_fails_of_not_has hkey hmissing
    refine ⟨⟨e, hresult⟩, fun haccepted => ⟨first, hfirst, ?_⟩⟩
    -- An earlier key than `key` may be at fault, but only because its operator is missing too.
    have hfirst_missing : ¬registry.Has first := by
      intro hhas
      rw [haccepted first hfirst hhas] at hfault
      cases hfault
    refine ⟨hfirst_missing, ?_⟩
    rw [Registry.fault?_of_not_has hfirst_missing] at hfault
    cases hfault
    exact hresult
  · intro entityCalls contextCalls hmentioned
    exact Tree.compilesAlike fun key hkey => Registry.agreeAt_after (hmentioned key hkey)
  · intro hnone entityCalls contextCalls
    refine Tree.compilesAlike fun key hkey => ?_
    rw [hnone] at hkey
    cases hkey

/-- One name in both places. Operators of other names make no difference, and where the name is registered
for restrictors only, the condition is refused. -/
theorem Checks.compile_sees_in_place :
    let member : Factory Entity := fun _ => .ok fun _ => .ok true
    let today : Factory Context := fun _ => .ok fun _ => .ok false
    let registry : Registry :=
      { entityOps := ⟨Clause.builtins, [("vip", member)]⟩
        contextOps := ⟨Condition.builtins, [("vip", today)]⟩ }
    let later := registry.after [.insert "late" member] [.extend [("early", today), ("late", today)]]
    let apart : Registry := { entityOps := registry.entityOps }
    let tree : Tree := [.not [.requester (.all [.custom "vip" .null])], .custom "vip" .null]
    Tree.CompilesAlike tree registry later ∧
      (compile tree ⟨apart, none⟩).result = .error (.unknownOperator "vip") := by
  intro member today registry later apart tree
  have hkeys : ∀ key ∈ Tree.customKeys tree,
      key = .clause "vip" .null ∨ key = .condition "vip" .null := by
    intro key hkey
    have hkey : key ∈ [CustomKey.clause "vip" .null, .condition "vip" .null] := hkey
    simpa using hkey
  have hagree : ∀ key ∈ Tree.customKeys tree, registry.AgreeAt later key := by
    intro key hkey
    rcases hkeys key hkey with rfl | rfl <;> rfl
  have hmissing : ¬apart.Has (.condition "vip" .null) := by
    show ¬(Operators.forContexts.contains "vip" = true)
    decide
  have haccepted : ∀ key ∈ Tree.customKeys tree, apart.Has key → apart.fault? key = none := by
    intro key hkey hhas
    rcases hkeys key hkey with rfl | rfl
    · rfl
    · exact absurd hhas hmissing
  have hcondition : CustomKey.condition "vip" .null ∈ Tree.customKeys tree :=
    List.mem_cons_of_mem _ List.mem_cons_self
  obtain ⟨-, hnames⟩ := (compile_sees tree apart).2.1 _ hcondition hmissing
  obtain ⟨missing, hmem, -, hresult⟩ := hnames haccepted
  refine ⟨(compile_sees tree registry).1 later hagree, ?_⟩
  rcases hkeys missing hmem with rfl | rfl <;> exact hresult

end PolicyDecision
