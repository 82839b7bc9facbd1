import PolicyDecision.Proofs.Compilation
import PolicyDecision.Proofs.Fair

/-!
# Built-in keys cannot be shadowed

Operators are registered by calls, of which some may fail halfway. Whatever the calls were, no reserved name
is registered afterwards (`Operators.Lawful.after`), and a batch has registered what its longest beginning
without a reserved name registers, operator by operator (`Operators.registers_extend`).

So a tree with a custom key named like a built-in one cannot be compiled, at whatever depth the key is:
without a memo because the key is not registered, and with one because the search for such keys comes before
the memo is asked (`Checks.compile_fails_of_shadows`).
-/

namespace PolicyDecision

namespace Operators

variable {α : Type} {ops : Operators α}

/-! ### Calls that register -/

/-- A call that registers operators. -/
inductive Call (α : Type)
  | insert (name : String) (factory : Factory α)
  | extend (batch : List (String × Factory α))

namespace Call

def perform : Call α → Act (Operators α) Unit
  | .insert name factory => do set (← Act.ofExcept ((← get).insert name factory))
  | .extend batch => Operators.extend batch

/-- The operators that a call tries to register, in order. -/
def batch : Call α → List (String × Factory α)
  | .insert name factory => [(name, factory)]
  | .extend batch => batch

/-- One operator is registered like a batch of one. -/
theorem perform_eq (call : Call α) : call.perform = Operators.extend call.batch := by
  cases call with
  | insert name factory =>
    simp only [perform, batch, Operators.extend, bind_pure_unit]
  | extend batch => rfl

end Call

/-- The operators after some calls, failed ones included. -/
def after (ops : Operators α) (calls : List (Call α)) : Operators α :=
  calls.foldl (fun ops call => (call.perform ops).state) ops

theorem after_cons (ops : Operators α) (call : Call α) (calls : List (Call α)) :
    ops.after (call :: calls) = (call.perform ops).state.after calls := rfl

theorem after_reserved (calls : List (Call α)) (ops : Operators α) :
    (ops.after calls).reserved = ops.reserved := by
  induction calls generalizing ops with
  | nil => rfl
  | cons call calls ih => rw [after_cons, ih, call.perform_eq, extend_reserved]

/-- **No calls register a reserved name.** -/
theorem Lawful.after (h : ops.Lawful) (calls : List (Call α)) : (ops.after calls).Lawful := by
  induction calls generalizing ops with
  | nil => exact h
  | cons call calls ih =>
    rw [after_cons, call.perform_eq]
    exact ih (h.extend call.batch)

/-! ### Batches -/

/-- A batch has registered its longest beginning without a reserved name, as calls for one operator at a
time do, and has failed if it has a reserved name. -/
structure Registers (ops : Operators α) (batch : List (String × Factory α))
    (outcome : Outcome (Operators α) Unit) : Prop where
  registered : ∃ first rest, batch = first ++ rest ∧
    (∀ entry ∈ first, entry.1 ∉ ops.reserved) ∧ (∀ entry ∈ rest.head?, entry.1 ∈ ops.reserved) ∧
    outcome.state = ops.after (first.map fun entry => .insert entry.1 entry.2)
  fails_iff : (∃ e, outcome.result = .error e) ↔ ∃ entry ∈ batch, entry.1 ∈ ops.reserved

theorem perform_insert {entry : String × Factory α} (h : entry.1 ∉ ops.reserved) :
    (Call.perform (.insert entry.1 entry.2) ops).state = ops.put entry := by
  simp [Call.perform, Act.bind_apply, insert_of_not_reserved h]

/-- Calls for operators whose names are not reserved put one after the other. -/
theorem after_inserts {entries : List (String × Factory α)} (h : ∀ entry ∈ entries, entry.1 ∉ ops.reserved) :
    ops.after (entries.map fun entry => .insert entry.1 entry.2) = entries.foldl put ops := by
  induction entries generalizing ops with
  | nil => rfl
  | cons entry entries ih =>
    obtain ⟨hentry, hentries⟩ := List.forall_mem_cons.1 h
    rw [List.map_cons, after_cons, perform_insert hentry, List.foldl_cons]
    exact ih hentries

/-- **A batch registers its longest beginning without a reserved name**, and fails if it has one. -/
theorem registers_extend (ops : Operators α) (batch : List (String × Factory α)) :
    ops.Registers batch (extend batch ops) where
  registered := by
    refine ⟨ops.accepted batch, batch.dropWhile fun entry => entry.1 ∉ ops.reserved,
      List.takeWhile_append_dropWhile.symm, fun entry => not_reserved_of_mem_accepted, ?_, ?_⟩
    · intro entry hentry
      have hhead := List.head?_dropWhile_not (fun entry => decide (entry.1 ∉ ops.reserved)) batch
      rw [Option.mem_def.1 hentry] at hhead
      simpa using hhead
    · rw [extend_apply, after_inserts fun entry => not_reserved_of_mem_accepted]
  fails_iff := by
    rw [extend_apply]
    cases hreserved : ops.firstReserved batch with
    | none =>
      have hnone : ∀ entry ∈ batch, entry.1 ∉ ops.reserved := by
        simpa [firstReserved] using hreserved
      simpa using hnone
    | some name =>
      obtain ⟨entry, hentry, rfl⟩ := List.mem_map.1 (List.mem_of_find?_eq_some hreserved)
      have hname : entry.1 ∈ ops.reserved := by simpa using List.find?_some hreserved
      exact ⟨fun _ => ⟨entry, hentry, hname⟩, fun _ => ⟨_, rfl⟩⟩

end Operators

/-! ### Trees with a shadowing key -/

/-- The registry after some calls for each kind of operators. -/
def Registry.ofCalls (entityCalls : List (Operators.Call Entity))
    (contextCalls : List (Operators.Call Context)) : Registry where
  entityOps := Operators.forEntities.after entityCalls
  contextOps := Operators.forContexts.after contextCalls

theorem Registry.lawful_ofCalls (entityCalls : List (Operators.Call Entity))
    (contextCalls : List (Operators.Call Context)) : (ofCalls entityCalls contextCalls).Lawful where
  entityNames := Operators.after_reserved entityCalls _
  contextNames := Operators.after_reserved contextCalls _
  entityOps := Registry.lawful_empty.entityOps.after entityCalls
  contextOps := Registry.lawful_empty.contextOps.after contextCalls

namespace Checks

variable {registry : Registry} {tree : Tree} {key : CustomKey}

/-- Without a memo the name of the key is looked up, and not found. -/
theorem compile_fails_memoless (hlawful : registry.Lawful) (hkey : key ∈ Tree.customKeys tree)
    (hshadows : key.Shadows) : ∃ e, (compile tree ⟨registry, none⟩).result = .error e := by
  have hmakes := Tree.makes_compile registry tree
  have hfault : registry.fault? key ≠ none := by simp [hlawful.fault?_of_shadows hshadows]
  cases hresult : (tree.compile registry ()).result with
  | ok p => exact absurd ((hmakes.ok p hresult).1 key hkey) hfault
  | error e => exact ⟨e, hresult⟩

/-- With a memo the search finds a shadowing key, and nothing else is done. -/
theorem compile_fails_memoizing (hkey : key ∈ Tree.customKeys tree) (hshadows : key.Shadows)
    (registry : Registry) (memo : Memo String ContextPredicate) :
    ∃ found ∈ Tree.customKeys tree, found.Shadows ∧ compile tree ⟨registry, some memo⟩ =
      ⟨.error (.unknownOperator found.name), ⟨registry, some memo⟩, []⟩ := by
  cases hsearch : Tree.shadowedBuiltin? tree with
  | none => exact absurd hshadows (Tree.shadowedBuiltin?_eq_none_iff.1 hsearch key hkey)
  | some name =>
    obtain ⟨found, hfound, hshadows', rfl⟩ := Tree.shadows_of_shadowedBuiltin? hsearch
    refine ⟨found, hfound, hshadows', ?_⟩
    rw [compile, Act.bind_ok (a := ⟨registry, some memo⟩) rfl]
    simp only [hsearch]
    rfl

/-- **Built-in keys cannot be shadowed.** After any calls no reserved name is registered, and a batch
registers its longest beginning without one. A tree with a custom key that is named like a built-in one
cannot be compiled; with a memo the error names such a key, nothing is built and the memo is as it was. -/
theorem compile_fails_of_shadows (entityCalls : List (Operators.Call Entity))
    (contextCalls : List (Operators.Call Context)) :
    let registry := Registry.ofCalls entityCalls contextCalls
    registry.Lawful ∧
    (∀ batch, registry.entityOps.Registers batch (Operators.extend batch registry.entityOps)) ∧
    (∀ batch, registry.contextOps.Registers batch (Operators.extend batch registry.contextOps)) ∧
    ∀ tree, (∃ key ∈ Tree.customKeys tree, key.Shadows) →
      (∃ e, (compile tree ⟨registry, none⟩).result = .error e) ∧
      ∀ memo, ∃ key ∈ Tree.customKeys tree, key.Shadows ∧ compile tree ⟨registry, some memo⟩ =
        ⟨.error (.unknownOperator key.name), ⟨registry, some memo⟩, []⟩ := by
  intro registry
  have hlawful : registry.Lawful := Registry.lawful_ofCalls entityCalls contextCalls
  refine ⟨hlawful, registry.entityOps.registers_extend, registry.contextOps.registers_extend, ?_⟩
  rintro tree ⟨key, hkey, hshadows⟩
  exact ⟨compile_fails_memoless hlawful hkey hshadows, compile_fails_memoizing hkey hshadows registry⟩

/-- A clause `subof` of a requester below two other conditions, after calls that failed. -/
theorem compile_fails_of_shadows_deep :
    let always : Factory Entity := fun _ => .ok fun _ => .ok true
    let never : Factory Context := fun _ => .ok fun _ => .ok false
    let entityCalls := [.extend [("vip", always), ("id", always), ("late", always)], .insert "subof" always]
    let contextCalls := [.insert "and" never, .insert "weekend" never]
    let registry := Registry.ofCalls entityCalls contextCalls
    let requester : Restrictor := .all [.custom "vip" .null, .custom "subof" .null]
    let tree : Tree := [.custom "weekend" .null, .nor [[], [.not [.requester requester]]]]
    let key : CustomKey := .clause "subof" .null
    registry.entityOps.entries.map Prod.fst = ["vip"] ∧
      registry.contextOps.entries.map Prod.fst = ["weekend"] ∧
      key ∈ Tree.customKeys tree ∧ key.Shadows ∧
      (∃ e, (compile tree ⟨registry, none⟩).result = .error e) ∧
      ∃ found ∈ Tree.customKeys tree, found.Shadows ∧
        compile tree ⟨registry, some (.new {})⟩ =
          ⟨.error (.unknownOperator found.name), ⟨registry, some (.new {})⟩, []⟩ := by
  intro always never entityCalls contextCalls registry requester tree key
  have hkey : key ∈ Tree.customKeys tree := by
    simp [tree, requester, key, Tree.customKeys, Condition.customKeys, Tree.customKeysOfEach,
      Restrictor.customKeys, Clause.customKeys]
  have hshadows : key.Shadows := by decide
  obtain ⟨-, -, -, hfails⟩ := compile_fails_of_shadows entityCalls contextCalls
  obtain ⟨hmemoless, hmemoizing⟩ := hfails tree ⟨key, hkey, hshadows⟩
  exact ⟨rfl, rfl, hkey, hshadows, hmemoless, hmemoizing _⟩

end Checks
end PolicyDecision
