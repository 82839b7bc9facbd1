import PolicyDecision.Proofs.Fair
import PolicyDecision.Proofs.Remembered
import PolicyDecision.Proofs.Run

/-!
# What a policy reacts, whatever is remembered

Where no leaf fails, the reaction of a policy is settled by the truth values of its trees
(`Policy.outcome`). What is remembered makes no difference to it, as long as closures are current and
predicates were made with the operators registered now (`Evaluation.Current`): a predicate that is found
may ask the leaves in another order than the tree, but then the order does not matter.

If a custom key is at fault, the policy fails. With which fault it fails may depend on what is
remembered, for a shadowed key is refused before any other fault is met.
-/

namespace PolicyDecision

/-! ### Known reactions -/

/-- The reaction of contents whose trees have these truth values. -/
def Content.verdict (v : Valuation) (allowed : Bool) : List Content → Reaction
  | [] => if allowed then some true else none
  | content :: rest =>
    if Tree.truth v content.check = some true then
      match content.reaction with
      | some false => some false
      | some true => verdict v true rest
      | none => verdict v allowed rest
    else verdict v allowed rest

/-- The reaction of a policy, or the first fault of its keys. -/
def Policy.outcome (registry : Registry) (entities : Table Entity) (context : Context)
    (policy : Policy) : Except Error Reaction :=
  match (Content.customKeys policy.contents).findSome? registry.fault? with
  | some e => .error e
  | none => .ok (Content.verdict (registry.valuation entities context) false policy.contents)

/-- The errors that a tree with a fault may be refused with. -/
def Registry.Refuses (registry : Registry) (e : Error) : Prop :=
  (∃ name, e = .unknownOperator name) ∨ ∃ key, registry.fault? key = some e

/-- The closures are current, and the predicates were made with the operators registered now. -/
structure Evaluation.Current (registry : Registry) (entities : Table Entity) (requester : EntityId)
    (evaluation : Evaluation) : Prop where
  checks : evaluation.checks.Remembers registry (Checks.MadeOf registry fun _ => True)
  inquiry : evaluation.inquiry.Current entities requester

namespace Evaluation

variable {registry : Registry} {entities : Table Entity} {requester : EntityId} {α : Type}
  {R : Except Error α → Prop}

theorem ensures_onChecks {x : Act Checks α}
    (hx : Act.Ensures (Checks.Remembers registry (Checks.MadeOf registry fun _ => True)) R x) :
    Act.Ensures (Current registry entities requester) R (onChecks x) :=
  hx.zoom (fun _ hs => hs.checks) fun _ _ hs ht => ⟨ht, hs.inquiry⟩

theorem ensures_onInquiry {x : Act Inquiry α}
    (hx : Act.Ensures (Inquiry.Current entities requester) R x) :
    Act.Ensures (Current registry entities requester) R (onInquiry x) :=
  hx.zoom (fun _ hs => hs.inquiry) fun _ _ hs ht => ⟨hs.checks, ht⟩

end Evaluation

/-! ### Making predicates -/

/-- Making something under these keys succeeds, with something good, exactly if none of them is at
fault. -/
inductive Compiles {α : Type} (registry : Registry) (keys : List CustomKey) (Good : α → Prop) :
    Except Error α → Prop
  | ok {a : α} (hfaultless : registry.Faultless keys) (h : Good a) : Compiles registry keys Good (.ok a)
  | error {e : Error} (hfault : ¬registry.Faultless keys) (he : registry.Refuses e) :
      Compiles registry keys Good (.error e)

variable {registry : Registry} {entities : Table Entity} {context : Context}

theorem Compiles.bind {σ α β : Type} {I : σ → Prop} {keys keys' : List CustomKey} {Good : α → Prop}
    {Good' : β → Prop} {x : Act σ α} {f : α → Act σ β}
    (hx : Act.Ensures I (Compiles registry keys Good) x)
    (hf : ∀ a, Good a → Act.Ensures I (Compiles registry keys' Good') (f a)) :
    Act.Ensures I (Compiles registry (keys ++ keys') Good') (x >>= f) := by
  refine hx.bind (fun e he => ?_) fun a ha => ?_
  · cases he with
    | error hfault he => exact .error (fun h => hfault (List.forall_mem_append.1 h).1) he
  · cases ha with
    | ok hfaultless ha =>
      refine (hf a ha).mono fun r hr => ?_
      cases hr with
      | ok hfaultless' hb => exact .ok (List.forall_mem_append.2 ⟨hfaultless, hfaultless'⟩) hb
      | error hfault he => exact .error (fun h => hfault (List.forall_mem_append.1 h).2) he

theorem Compiles.pure {σ α : Type} {I : σ → Prop} {Good : α → Prop} {a : α} (h : Good a) :
    Act.Ensures I (Compiles registry [] Good) (Pure.pure a : Act σ α) :=
  Act.ensures_pure (.ok (fun _ => nofun) h)

/-- The predicate was made of a tree that is alike. -/
def Content.StandsFor (registry : Registry) (content : Content) (made : ContextPredicate × Reaction) :
    Prop :=
  made.2 = content.reaction ∧
    ∃ u, Tree.Alike u content.check ∧ (Tree.compile registry u ()).result = .ok made.1

theorem Tree.Compiled.compiles (hlawful : registry.Lawful) {source : Tree → Prop} {t : Tree}
    {r : Except Error ContextPredicate} (h : Tree.Compiled registry source t r) :
    Compiles registry (Tree.customKeys t)
      (fun p => ∃ u, Tree.Alike u t ∧ (Tree.compile registry u ()).result = .ok p) r := by
  have hmakes := Tree.makes_compile registry t
  cases h with
  | ok u hu hwritten halike hp =>
    exact .ok (hmakes.ok_iff.1 ((halike.compiles registry).1 ⟨_, hp⟩)) ⟨u, halike, hp⟩
  | shadowed hname =>
    refine .error (fun hfaultless => ?_) (.inl ⟨_, rfl⟩)
    cases (Tree.unshadowed_of_faultless hlawful t hfaultless).symm.trans hname
  | @fault e he =>
    refine .error (fun hfaultless => ?_) ?_
    · obtain ⟨p, hp⟩ := hmakes.ok_iff.2 hfaultless
      cases hp.symm.trans he
    · obtain ⟨key, -, hkey⟩ := List.exists_of_findSome?_eq_some (hmakes.error e he)
      exact .inr ⟨key, hkey⟩

theorem Content.ensures_compile (hlawful : registry.Lawful) (contents : List Content) :
    Act.Ensures (Checks.Remembers registry (Checks.MadeOf registry fun _ => True))
      (Compiles registry (Content.customKeys contents)
        (List.Forall₂ (Content.StandsFor registry) contents))
      (contents.mapM Content.compile) := by
  induction contents with
  | nil => exact Compiles.pure .nil
  | cons content contents ih =>
    have hcompile : Act.Ensures (Checks.Remembers registry (Checks.MadeOf registry fun _ => True))
        (Compiles registry (Tree.customKeys content.check ++ []) (Content.StandsFor registry content))
        (Content.compile content) := by
      refine Compiles.bind ((Checks.ensures_compile_madeOf trivial).mono fun r hr =>
        hr.compiles hlawful) fun p hp => ?_
      exact Compiles.pure ⟨rfl, hp⟩
    rw [List.append_nil] at hcompile
    rw [List.mapM_cons, Content.customKeys, List.flatMap_cons]
    refine Compiles.bind hcompile fun made hmade => ?_
    rw [← List.append_nil (contents.flatMap fun content => Tree.customKeys content.check)]
    exact Compiles.bind ih fun rest hrest => Compiles.pure (.cons hmade hrest)

/-! ### Evaluating them -/

/-- A predicate that stands for a content tells the truth about its tree. -/
theorem Content.StandsFor.tells {content : Content} {made : ContextPredicate × Reaction}
    (h : content.StandsFor registry made) :
    Act.Ensures (Inquiry.Current entities context.requester)
      (Tells ((registry.valuation entities context).Sure (Tree.leaves content.check))
        (Tree.truth (registry.valuation entities context) content.check))
      (made.1.eval context) := by
  obtain ⟨-, u, halike, hp⟩ := h
  rw [Tree.eval_of_compile hp, ← halike.truth]
  exact (Tree.tells_holds registry entities context u).mono fun r hr => hr.weaken (halike.sure _).2

/-- **Scanning comes to the verdict of the truth values**, if no leaf fails. -/
theorem Content.ensures_scan {contents : List Content} {made : List (ContextPredicate × Reaction)}
    (h : List.Forall₂ (Content.StandsFor registry) contents made) (allowed : Bool) :
    Act.Ensures (Inquiry.Current entities context.requester)
      (fun r => (∀ content ∈ contents,
          (registry.valuation entities context).Sure (Tree.leaves content.check)) →
        r = .ok (Content.verdict (registry.valuation entities context) allowed contents))
      (Content.scan context allowed made) := by
  induction h generalizing allowed with
  | nil => exact Act.ensures_pure fun _ => rfl
  | @cons content made contents rest hmade _ ih =>
    obtain ⟨check, reaction⟩ := made
    obtain rfl : reaction = content.reaction := hmade.1
    unfold Content.scan Content.verdict
    refine hmade.tells.bind (fun e he hsure => ?_) fun holds hholds => ?_
    · exact absurd (hsure content List.mem_cons_self) he.not_sure
    · have htruth := hholds.sound holds rfl
      have hrest : ∀ allowed, Act.Ensures (Inquiry.Current entities context.requester)
          (fun r => (∀ c ∈ content :: contents,
              (registry.valuation entities context).Sure (Tree.leaves c.check)) →
            r = .ok (Content.verdict (registry.valuation entities context) allowed contents))
          (Content.scan context allowed rest) := fun allowed =>
        (ih allowed).mono fun r hr hsure => hr fun c hc => hsure c (List.mem_cons_of_mem _ hc)
      rw [htruth]
      cases holds with
      | false => exact hrest allowed
      | true =>
        simp only [if_true]
        match content.reaction with
        | some false => exact Act.ensures_pure fun _ => rfl
        | some true => exact hrest true
        | none => exact hrest allowed

/-- **What is remembered makes no difference to the reaction of a policy**, if no leaf fails; and if a
custom key is at fault, the policy fails. -/
theorem Policy.ensures_react (hlawful : registry.Lawful) (policy : Policy) :
    Act.Ensures (Evaluation.Current registry entities context.requester)
      (fun r => Fair registry entities context.requester →
        Agrees registry.Refuses r (policy.outcome registry entities context))
      (policy.react context) := by
  rw [Policy.react, Policy.outcome]
  -- All contents are compiled before the first is asked, so one fault is enough for the policy to fail.
  refine (Evaluation.ensures_onChecks (Content.ensures_compile hlawful policy.contents)).bind
    (fun e he _ => ?_) fun made hmade => ?_
  · cases he with
    | error hfault he =>
      cases hfirst : (Content.customKeys policy.contents).findSome? registry.fault? with
      | none => exact absurd (List.findSome?_eq_none_iff.1 hfirst) hfault
      | some first =>
        obtain ⟨key, -, hkey⟩ := List.exists_of_findSome?_eq_some hfirst
        exact .failed he (.inr ⟨key, hkey⟩)
  · cases hmade with
    | ok hfaultless hmade =>
      refine Evaluation.ensures_onInquiry ((Content.ensures_scan hmade false).mono fun r hr hfair => ?_)
      rw [List.findSome?_eq_none_iff.2 hfaultless]
      have hsure : ∀ content ∈ policy.contents,
          (registry.valuation entities context).Sure (Tree.leaves content.check) := by
        intro content hcontent
        apply hfair.sure_tree
        intro key hkey
        exact hfaultless key (List.mem_flatMap.2 ⟨content, hcontent, hkey⟩)
      rw [hr hsure]
      exact .same _

end PolicyDecision
