import PolicyDecision.Proofs.Contents
import PolicyDecision.Proofs.Equality
import PolicyDecision.Proofs.Sameness

/-!
# Equal contents compile and answer alike

Equal trees may differ in the arguments of custom keys, by the signs of zeros. Where the operators make the
same of equal arguments (`Registry.Congruent`), equal trees fail with the same error, or the predicates that
are made of them have the same results. Their runs need not be the same, since the arguments are recorded on
the trail; they come to the same results and states (`Act.Same`).

The induction compares a tree with its standard form (`Tree.same_holds`), which two equal trees share.
-/

namespace PolicyDecision

/-! ### The same but for the trail -/

namespace Act

variable {σ τ α β : Type}

/-- The operations come to the same results and states. What they leave on the trail may differ. -/
def Same (x y : Act σ α) : Prop :=
  ∀ s, (x s).result = (y s).result ∧ (x s).state = (y s).state

theorem Same.refl (x : Act σ α) : Same x x :=
  fun _ => ⟨rfl, rfl⟩

theorem Same.symm {x y : Act σ α} (h : Same x y) : Same y x :=
  fun s => ⟨(h s).1.symm, (h s).2.symm⟩

theorem Same.trans {x y z : Act σ α} (h : Same x y) (h' : Same y z) : Same x z :=
  fun s => ⟨(h s).1.trans (h' s).1, (h s).2.trans (h' s).2⟩

theorem same_record (event event' : Event) : Same (record event : Act σ Unit) (record event') :=
  fun _ => ⟨rfl, rfl⟩

theorem Same.bind {x y : Act σ α} {f g : α → Act σ β} (hx : Same x y) (hf : ∀ a, Same (f a) (g a)) :
    Same (x >>= f) (y >>= g) := by
  intro s
  obtain ⟨hresult, hstate⟩ := hx s
  cases h : (x s).result with
  | error e =>
    rw [bind_error h, bind_error (hresult.symm.trans h)]
    exact ⟨rfl, hstate⟩
  | ok a =>
    rw [bind_ok h, bind_ok (hresult.symm.trans h), hstate]
    exact hf a _

/-- Operations that are the same answer the same, and what follows is the same. -/
theorem Same.ite {x y : Act σ Bool} {f g f' g' : Act σ Bool} (hx : Same x y) (hf : Same f f')
    (hg : Same g g') : Same (do if ← x then f else g) (do if ← y then f' else g') := by
  apply hx.bind
  intro b
  cases b with
  | true => exact hf
  | false => exact hg

theorem Same.zoom {x y : Act τ α} (h : Same x y) (part : σ → τ) (put : τ → σ → σ) :
    Same (Act.zoom part put x) (Act.zoom part put y) :=
  fun s => ⟨(h (part s)).1, congrArg (put · s) (h (part s)).2⟩

end Act

/-! ### Operators -/

/-- For equal arguments a factory makes the same test or fails with the same error. -/
def Operators.Congruent {α : Type} (ops : Operators α) : Prop :=
  ∀ name factory, ops.find? name = some factory → ∀ arg arg', arg == arg' → factory arg = factory arg'

structure Registry.Congruent (registry : Registry) : Prop where
  entityOps : registry.entityOps.Congruent
  contextOps : registry.contextOps.Congruent

namespace Operators.Congruent

variable {α : Type} {ops : Operators α} (h : ops.Congruent)
include h

theorem ask_standard (name : String) (arg : Json) (subject : α) :
    ops.ask name arg subject = ops.ask name arg.standard subject := by
  cases hfind : ops.find? name with
  | none => rw [ask, ask, hfind]
  | some factory =>
    rw [ask, ask, hfind]
    simp only [h name factory hfind _ _ arg.beq_standard]

theorem fault?_eq (name : String) {arg arg' : Json} (harg : arg == arg') :
    ops.fault? name arg = ops.fault? name arg' := by
  cases hfind : ops.find? name with
  | none => rw [fault?, fault?, hfind]
  | some factory =>
    rw [fault?, fault?, hfind]
    simp only [h name factory hfind _ _ harg]

end Operators.Congruent

variable {registry : Registry}

theorem Registry.Congruent.findSome?_fault? (h : registry.Congruent) {keys keys' : List CustomKey}
    (hsame : List.Forall₂ CustomKey.Same keys keys') :
    keys.findSome? registry.fault? = keys'.findSome? registry.fault? := by
  induction hsame with
  | nil => rfl
  | @cons key key' keys keys' hkey _ ih =>
    have hfault : registry.fault? key = registry.fault? key' := by
      cases hkey with
      | clause name harg => exact h.entityOps.fault?_eq name harg
      | condition name harg => exact h.contextOps.fault?_eq name harg
    rw [List.findSome?_cons, List.findSome?_cons, hfault, ih]

/-! ### Trees and their standard forms -/

section Standard

variable (h : registry.Congruent)
include h

theorem Clause.same_holds (entity : Entity) (clause : Clause) :
    Act.Same (clause.holds registry.entityOps entity) (clause.standard.holds registry.entityOps entity) := by
  cases clause with
  | id target => exact .refl _
  | subOf target => exact .refl _
  | custom name arg =>
    rw [Clause.standard, Clause.holds, Clause.holds, h.entityOps.ask_standard]
    exact (Act.same_record _ _).bind fun _ => (Act.same_record _ _).bind fun _ => .refl _

theorem Clause.same_allHold (entity : Entity) (clauses : List Clause) :
    Act.Same (Clause.allHold registry.entityOps entity clauses)
      (Clause.allHold registry.entityOps entity (clauses.map Clause.standard)) := by
  induction clauses with
  | nil => exact .refl _
  | cons clause clauses ih =>
    rw [List.map_cons, Clause.allHold, Clause.allHold]
    exact (Clause.same_holds h entity clause).ite ih (.refl _)

theorem Restrictor.same_holds (entity : Entity) (restrictor : Restrictor) :
    Act.Same (restrictor.holds registry.entityOps entity)
      (restrictor.standard.holds registry.entityOps entity) := by
  cases restrictor with
  | wildcard => exact .refl _
  | noOwner => exact .refl _
  | all clauses =>
    rw [Restrictor.standard, Restrictor.holds, Restrictor.holds]
    exact Clause.same_allHold h entity clauses

theorem Condition.same_requester (context : Context) (restrictor : Restrictor) :
    Act.Same ((Condition.requester restrictor).holds registry context)
      ((Condition.requester restrictor.standard).holds registry context) := by
  have hsame := fun entity => Restrictor.same_holds h entity restrictor
  cases restrictor with
  | wildcard => exact .refl _
  | noOwner => exact .refl _
  | all clauses =>
    rw [Restrictor.standard] at hsame ⊢
    rw [Condition.holds, Condition.holds]
    · exact (Act.Same.refl _).bind fun _ => (Act.Same.refl _).bind fun entity => (hsame entity).zoom _ _
    · rintro ⟨⟩
    · rintro ⟨⟩

end Standard

mutual

theorem Condition.same_holds (h : registry.Congruent) (context : Context) : (condition : Condition) →
    Act.Same (condition.holds registry context) (condition.standard.holds registry context)
  | .requester restrictor => by
    rw [Condition.standard]
    exact Condition.same_requester h context restrictor
  | .resourceId id => .refl _
  | .access allowed => .refl _
  | .not tree => by
    rw [Condition.standard, Condition.holds, Condition.holds]
    exact (Tree.same_holds h context tree).bind fun _ => .refl _
  | .nor trees => by
    rw [Condition.standard, Condition.holds, Condition.holds]
    exact (Tree.same_anyHolds h context trees).bind fun _ => .refl _
  | .or trees => by
    rw [Condition.standard, Condition.holds, Condition.holds]
    exact Tree.same_anyHolds h context trees
  | .and trees => by
    rw [Condition.standard, Condition.holds, Condition.holds]
    exact Tree.same_allHold h context trees
  | .custom name arg => by
    rw [Condition.standard, Condition.holds, Condition.holds, h.contextOps.ask_standard]
    exact (Act.same_record _ _).bind fun _ => (Act.same_record _ _).bind fun _ => .refl _

/-- **A tree and its standard form** have the same results. -/
theorem Tree.same_holds (h : registry.Congruent) (context : Context) : (tree : Tree) →
    Act.Same (Tree.holds registry context tree) (Tree.holds registry context (Tree.standard tree))
  | [] => .refl _
  | condition :: conditions => by
    rw [Tree.standard, Tree.holds, Tree.holds]
    exact (Condition.same_holds h context condition).ite (Tree.same_holds h context conditions) (.refl _)

theorem Tree.same_allHold (h : registry.Congruent) (context : Context) : (trees : List Tree) →
    Act.Same (Tree.allHold registry context trees)
      (Tree.allHold registry context (Tree.standardList trees))
  | [] => .refl _
  | tree :: trees => by
    rw [Tree.standardList, Tree.allHold, Tree.allHold]
    exact (Tree.same_holds h context tree).ite (Tree.same_allHold h context trees) (.refl _)

theorem Tree.same_anyHolds (h : registry.Congruent) (context : Context) : (trees : List Tree) →
    Act.Same (Tree.anyHolds registry context trees)
      (Tree.anyHolds registry context (Tree.standardList trees))
  | [] => .refl _
  | tree :: trees => by
    rw [Tree.standardList, Tree.anyHolds, Tree.anyHolds]
    exact (Tree.same_holds h context tree).ite (.refl _) (Tree.same_anyHolds h context trees)

end

/-! ### Equal trees -/

/-- **Equal trees** fail with the same error, or the predicates that are made of them have the same results. -/
theorem Tree.compile_cases (h : registry.Congruent) {t u : Tree} (hsame : Tree.same t u = true) :
    (∃ e, (Tree.compile registry t ()).result = .error e ∧
        (Tree.compile registry u ()).result = .error e) ∨
      ∃ p q, (Tree.compile registry t ()).result = .ok p ∧ (Tree.compile registry u ()).result = .ok q ∧
        ∀ context, Act.Same (p.eval context) (q.eval context) := by
  have ht := Tree.makes_compile registry t
  have hu := Tree.makes_compile registry u
  -- What the leaves answer does not matter for the keys.
  have hnone : Valuation.Respectful fun _ => none := ⟨fun _ _ _ _ => rfl, fun _ _ _ _ => rfl⟩
  have hkeys := h.findSome?_fault? (Tree.means_of_same hnone t u hsame).keys
  cases hp : (Tree.compile registry t ()).result with
  | error e => exact .inl ⟨e, rfl, hu.error_iff.2 (hkeys.symm.trans (ht.error e hp))⟩
  | ok p =>
    cases hq : (Tree.compile registry u ()).result with
    | error e => cases hp.symm.trans (ht.error_iff.2 (hkeys.trans (hu.error e hq)))
    | ok q =>
      refine .inr ⟨p, q, rfl, rfl, fun context => ?_⟩
      rw [(ht.ok p hp).2 context, (hu.ok q hq).2 context]
      have hstandard := Tree.same_holds h context u
      rw [← (Tree.same_iff t u).1 hsame] at hstandard
      exact (Tree.same_holds h context t).trans hstandard.symm

/-! ### Equal contents -/

namespace Content

theorem answer_of_error {s : Evaluation} {c : Content} {e : Error}
    (h : (c.compile s.checks).result = .error e) (context : Context) :
    (c.answer context s).result = .error e := by
  have hcompile : (Evaluation.onChecks c.compile s).result = .error e := h
  rw [answer, Act.bind_error hcompile]

variable {s : Evaluation} (hs : s.checks.memo = none) (h : s.checks.registry.Congruent) {c d : Content}
  (hequal : (c == d) = true)
include hs h hequal

theorem compile_cases :
    (∃ e, (Checks.compile c.check s.checks).result = .error e ∧
        (Checks.compile d.check s.checks).result = .error e) ∨
      ∃ p q, (Checks.compile c.check s.checks).result = .ok p ∧
        (Checks.compile d.check s.checks).result = .ok q ∧
        ∀ context, Act.Same (p.eval context) (q.eval context) := by
  obtain ⟨⟨registry, memo⟩, inquiry⟩ := s
  obtain rfl : memo = none := hs
  exact Tree.compile_cases h ((beq_iff_same c d).1 hequal).1

theorem compile_error_congr (e : Error) :
    (Checks.compile c.check s.checks).result = .error e ↔
      (Checks.compile d.check s.checks).result = .error e := by
  obtain ⟨e', hc, hd⟩ | ⟨p, q, hc, hd, -⟩ := compile_cases hs h hequal
  · rw [hc, hd]
  · simp [hc, hd]

theorem compiles_congr :
    (∃ p, (Checks.compile c.check s.checks).result = .ok p) ↔
      ∃ p, (Checks.compile d.check s.checks).result = .ok p := by
  obtain ⟨e, hc, hd⟩ | ⟨p, q, hc, hd, -⟩ := compile_cases hs h hequal
  · simp [hc, hd]
  · simp [hc, hd]

/-- **Equal contents answer alike.** -/
theorem answer_congr (context : Context) : (c.answer context s).result = (d.answer context s).result := by
  obtain ⟨e, hc, hd⟩ | ⟨p, q, hp, hq, hsame⟩ := compile_cases hs h hequal
  · rw [answer_of_error (compile_error_iff.2 hc), answer_of_error (compile_error_iff.2 hd)]
  · have hc : (c.compile s.checks).result = .ok (p, c.reaction) := compile_ok_iff.2 ⟨hp, rfl⟩
    have hd : (d.compile s.checks).result = .ok (q, d.reaction) := compile_ok_iff.2 ⟨hq, rfl⟩
    rw [answer_of_compile hc, answer_of_compile hd]
    exact (hsame context s.inquiry).1

end Content
end PolicyDecision
