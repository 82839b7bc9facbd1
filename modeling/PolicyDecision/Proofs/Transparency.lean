import PolicyDecision.Proofs.Remembered

/-!
# What remembering predicates changes

With the same operators, compiling a tree fails for the same reason whether predicates are remembered
or not. When it succeeds, the predicate that is found is the reading of a tree that was compiled
before, or of this one, and is written alike (`Checks.compile_transparent`). The predicate of either
tree asks the same leaves, though not in the same order: the written form has the names of an object
sorted and repeated keys moved. Hence the two predicates never answer differently, and they answer
both where no leaf fails; but where a leaf fails, one may fail and the other answer
(`Checks.compile_reordered`).
-/

namespace PolicyDecision.Checks

/-- The checks after these trees were compiled, one after the other. -/
def afterCompiling (trees : List Tree) (checks : Checks) : Checks :=
  trees.foldl (fun checks tree => (compile tree checks).state) checks

variable {registry : Registry} {source : Tree → Prop}

theorem remembers_afterCompiling {trees : List Tree} (htrees : ∀ t ∈ trees, source t)
    {checks : Checks} (h : Remembers registry (MadeOf registry source) checks) :
    Remembers registry (MadeOf registry source) (afterCompiling trees checks) := by
  induction trees generalizing checks with
  | nil => exact h
  | cons t trees ih =>
    obtain ⟨ht, htrees⟩ := List.forall_mem_cons.1 htrees
    exact ih htrees ((ensures_compile_madeOf ht).keeps checks h)

/-- The predicates of trees that are alike never answer differently, and both answer where no leaf
fails. -/
theorem eval_alike {u t : Tree} (halike : Tree.Alike u t) {p q : ContextPredicate}
    (hp : (Tree.compile registry u ()).result = .ok p)
    (hq : (Tree.compile registry t ()).result = .ok q) {entities : Table Entity} {context : Context}
    {s s' : Inquiry} (hs : Inquiry.Current entities context.requester s)
    (hs' : Inquiry.Current entities context.requester s') :
    (∀ b b', (p.eval context s).result = .ok b → (q.eval context s').result = .ok b' → b = b') ∧
      ((registry.valuation entities context).Sure (Tree.leaves t) →
        ∃ b, (p.eval context s).result = .ok b ∧ (q.eval context s').result = .ok b) := by
  rw [Tree.eval_of_compile hp, Tree.eval_of_compile hq]
  have hagree : ∀ b b', (Tree.holds registry context u s).result = .ok b →
      (Tree.holds registry context t s').result = .ok b' → b = b' :=
    fun b b' => halike.holds_eq registry hs hs'
  refine ⟨hagree, fun hsure => ?_⟩
  obtain ⟨b, hb⟩ := ((Tree.tells_holds registry entities context u).result s hs).answers
    ((halike.sure _).2 hsure)
  obtain ⟨b', hb'⟩ := ((Tree.tells_holds registry entities context t).result s' hs').answers hsure
  cases hagree b b' hb hb'
  exact ⟨b, hb, hb'⟩

/-- **What remembering predicates changes.** Let trees have been compiled, with any configuration of
the memo, and then a tree without shadowed keys. That fails as it does when nothing is remembered. When
it answers, the predicate is the reading of a tree compiled before or of this one, which is written
alike. Over any entities, it does not answer otherwise than the predicate that is made anew; and where
no leaf of the tree fails, both answer. -/
theorem compile_transparent (registry : Registry) (config : CacheConfig) (trees : List Tree)
    {t : Tree} (ht : Tree.shadowedBuiltin? t = none) :
    let found := compile t (afterCompiling trees ⟨registry, Memo.ofConfig config⟩)
    let anew := compile t ⟨registry, none⟩
    (∀ e, found.result = .error e ↔ anew.result = .error e) ∧
    ∀ p, found.result = .ok p → ∃ q, anew.result = .ok q ∧
      (∃ u ∈ t :: trees, (Tree.toJson u).compact = (Tree.toJson t).compact ∧
        ∀ context, p.eval context = Tree.holds registry context u) ∧
      ∀ entities context s s', Inquiry.Current entities context.requester s →
        Inquiry.Current entities context.requester s' →
        (∀ b b', (p.eval context s).result = .ok b → (q.eval context s').result = .ok b' →
          b = b') ∧
        ((registry.valuation entities context).Sure (Tree.leaves t) →
          ∃ b, (p.eval context s).result = .ok b ∧ (q.eval context s').result = .ok b) := by
  intro found anew
  have hanew : anew.result = (Tree.compile registry t ()).result := rfl
  have hremembers : Remembers registry (MadeOf registry (· ∈ t :: trees))
      (afterCompiling trees ⟨registry, Memo.ofConfig config⟩) :=
    remembers_afterCompiling (fun u hu => List.mem_cons_of_mem t hu)
      (remembers_new registry config)
  have hcompiled : Tree.Compiled registry (· ∈ t :: trees) t found.result :=
    (ensures_compile_madeOf List.mem_cons_self).result _ hremembers
  rw [hanew]
  cases hfound : found.result with
  | error e =>
    rw [hfound] at hcompiled
    refine ⟨fun e' => ?_, nofun⟩
    cases hcompiled with
    | shadowed hname =>
      rw [ht] at hname
      cases hname
    | fault he => rw [he]
  | ok p =>
    rw [hfound] at hcompiled
    cases hcompiled with
    | ok u hu hwritten halike hp =>
      obtain ⟨q, hq⟩ := (halike.compiles registry).1 ⟨p, hp⟩
      rw [hq]
      refine ⟨fun e => ⟨nofun, nofun⟩, fun p' hp' => ?_⟩
      cases hp'
      refine ⟨q, rfl, ⟨u, hu, hwritten, Tree.eval_of_compile hp⟩, ?_⟩
      exact fun entities context s s' hs hs' => eval_alike halike hp hq hs hs'

/-- An operator that holds, before and behind a condition that holds: both predicates say yes. -/
theorem compile_transparent_reordered :
    let holds : Factory Context := fun _ => .ok fun _ => .ok true
    let registry : Registry := { contextOps := ⟨Condition.builtins, [("calm", holds)]⟩ }
    let first : Tree := [.custom "calm" .null, .access (.one "read")]
    let t : Tree := [.access (.one "read"), .custom "calm" .null]
    let context : Context := ⟨⟨⟨1⟩⟩, .one "read", ⟨⟨2⟩⟩⟩
    let inquiry : Inquiry := ⟨⟨.empty, none⟩, none⟩
    ∃ p q b,
      (compile t (afterCompiling [first] ⟨registry, Memo.ofConfig ⟨true, 0, 1⟩⟩)).result = .ok p ∧
      (compile t ⟨registry, none⟩).result = .ok q ∧
      (p.eval context inquiry).result = .ok b ∧ (q.eval context inquiry).result = .ok b := by
  intro holds registry first t context inquiry
  obtain ⟨-, hfound⟩ := compile_transparent registry ⟨true, 0, 1⟩ [first]
    (show Tree.shadowedBuiltin? t = none from rfl)
  obtain ⟨q, hq, -, hanswers⟩ := hfound _ rfl
  have hcurrent : Inquiry.Current .empty context.requester inquiry :=
    Inquiry.current_unasked (Graph.current_memoless .empty)
  have hsure : (registry.valuation .empty context).Sure (Tree.leaves t) := by
    intro leaf hleaf
    rcases List.mem_cons.1 (show leaf ∈ [.access (.one "read"), .custom "calm" .null] from hleaf)
      with rfl | hleaf
    · exact ⟨true, rfl⟩
    · rw [List.mem_singleton.1 hleaf]
      exact ⟨true, rfl⟩
  obtain ⟨b, hb, hb'⟩ := (hanswers .empty context inquiry inquiry hcurrent hcurrent).2 hsure
  exact ⟨_, q, b, rfl, hq, hb, hb'⟩

/-- An operator that fails, before and behind a condition that does not hold. The predicate of the one
tree is found for the other, and fails where the other's own says no. -/
theorem compile_reordered :
    let fails : Factory Context := fun _ => .ok fun _ => .error .io
    let registry : Registry := { contextOps := ⟨Condition.builtins, [("boom", fails)]⟩ }
    let first : Tree := [.custom "boom" .null, .access (.one "read")]
    let t : Tree := [.access (.one "read"), .custom "boom" .null]
    let context : Context := ⟨⟨⟨1⟩⟩, .one "write", ⟨⟨2⟩⟩⟩
    let inquiry : Inquiry := ⟨⟨.empty, none⟩, none⟩
    ∃ p q,
      (compile t (afterCompiling [first] ⟨registry, Memo.ofConfig ⟨true, 0, 1⟩⟩)).result = .ok p ∧
      (compile t ⟨registry, none⟩).result = .ok q ∧
      (p.eval context inquiry).result = .error .io ∧ (q.eval context inquiry).result = .ok false := by
  intro fails registry first t context inquiry
  exact ⟨_, _, rfl, rfl, rfl, rfl⟩

end PolicyDecision.Checks
