import PolicyDecision.Proofs.Reaction

/-!
# Policies never fail for lack of a decision

That no policy decided is said by a decision, never by a policy: reading a tree fails because
something is not stored, or because a custom operator fails. Custom operators may fail with
whatever they like, so they are assumed not to fail in this way (`Registry.NeverUndecided`).
-/

namespace PolicyDecision

/-- No operator claims that there is no decision, neither when its factory is run nor when its
test is. -/
def Operators.NeverUndecided {α : Type} (ops : Operators α) : Prop :=
  ∀ name factory, ops.find? name = some factory → ∀ arg, factory arg ≠ .error .noDecision ∧
    ∀ test, factory arg = .ok test → ∀ subject, test subject ≠ .error .noDecision

/-- No custom operator of either kind claims that there is no decision. -/
structure Registry.NeverUndecided (registry : Registry) : Prop where
  entityOps : registry.entityOps.NeverUndecided
  contextOps : registry.contextOps.NeverUndecided

theorem Registry.neverUndecided_empty : Registry.NeverUndecided {} := by
  constructor <;> intro name factory hfind <;> cases hfind

/-! ### Custom operators -/

namespace Operators

variable {α : Type} {ops : Operators α} (h : ops.NeverUndecided)
include h

theorem ask_ne_noDecision (name : String) (arg : Json) (subject : α) :
    ops.ask name arg subject ≠ .error .noDecision := by
  rw [ask]
  cases hfind : ops.find? name with
  | none => simp
  | some factory =>
    obtain ⟨hfactory, htest⟩ := h name factory hfind arg
    intro hask
    cases hmade : factory arg with
    | error e =>
      simp only [hmade] at hask
      cases hask
      exact hfactory hmade
    | ok test =>
      simp only [hmade] at hask
      exact htest test hmade subject hask

theorem fault?_ne_noDecision (name : String) (arg : Json) :
    ops.fault? name arg ≠ some .noDecision := by
  rw [fault?]
  cases hfind : ops.find? name with
  | none => simp
  | some factory =>
    obtain ⟨hfactory, -⟩ := h name factory hfind arg
    intro hfault
    cases hmade : factory arg with
    | ok test =>
      simp only [hmade] at hfault
      cases hfault
    | error e =>
      simp only [hmade] at hfault
      cases hfault
      exact hfactory hmade

end Operators

/-! ### The graph -/

namespace Graph

theorem avoids_ancestorsOf (entity : Entity) (includeSelf : Bool) :
    Act.Avoids .noDecision (ancestorsOf entity includeSelf) := by
  have hresolve : Act.Avoids .noDecision (resolve entity includeSelf) := by
    intro graph h
    simp only [resolve, Act.bind_apply, Act.get_apply, Act.recordAll_apply] at h
    cases hwalk : (Walk.ofEntity graph.entities entity includeSelf).result with
    | ok closure =>
      simp only [hwalk] at h
      cases h
    | error x =>
      simp only [hwalk] at h
      cases h
  have hremembered : Act.Avoids .noDecision (remembered entity.id includeSelf) := by
    intro graph
    simp [remembered, modifyGet, MonadStateOf.modifyGet]
  rw [ancestorsOf]
  apply hremembered.bind
  intro hit
  cases hit with
  | some closure => exact Act.avoids_pure closure
  | none => exact hresolve

theorem avoids_isSubOf (entity : Entity) (target : EntityId) :
    Act.Avoids .noDecision (isSubOf entity target) := by
  rw [isSubOf]
  split
  · exact Act.avoids_pure true
  · exact (avoids_ancestorsOf entity false).bind fun closure => Act.avoids_pure _

end Graph

theorem Inquiry.avoids_fetchRequester (requester : EntityId) :
    Act.Avoids .noDecision (Inquiry.fetchRequester requester) := by
  intro s
  simp only [Inquiry.fetchRequester, Act.bind_apply, Act.get_apply]
  cases s.requester with
  | some entity => simp
  | none =>
    simp only [Inquiry.onGraph, Act.bind_apply, Act.zoom_apply, Graph.retrieve_apply]
    cases s.graph.entities.find? requester with
    | none => simp
    | some entity => simp

/-! ### Restrictors, trees and policies -/

variable {registry : Registry}

theorem Clause.avoids_holds (h : registry.NeverUndecided) (entity : Entity) (clause : Clause) :
    Act.Avoids .noDecision (clause.holds registry.entityOps entity) := by
  cases clause with
  | id target =>
    rw [Clause.holds]
    exact (Act.avoids_record _).bind fun _ => Act.avoids_pure _
  | subOf target =>
    rw [Clause.holds]
    exact (Act.avoids_record _).bind fun _ => Graph.avoids_isSubOf entity target
  | custom name arg =>
    rw [Clause.holds]
    refine (Act.avoids_record _).bind fun _ => (Act.avoids_record _).bind fun _ => ?_
    exact Act.avoids_ofExcept (Operators.ask_ne_noDecision h.entityOps name arg entity)

theorem Restrictor.avoids_holds (h : registry.NeverUndecided) (entity : Entity)
    (restrictor : Restrictor) :
    Act.Avoids .noDecision (restrictor.holds registry.entityOps entity) :=
  restrictor.compositional_holds Act.compositional_avoids (Clause.avoids_holds h entity)

theorem Condition.avoids_requester (h : registry.NeverUndecided) (context : Context)
    (restrictor : Restrictor) :
    Act.Avoids .noDecision ((Condition.requester restrictor).holds registry context) := by
  -- The wildcard apart, every restrictor is asked in the same way.
  by_cases hwild : restrictor = .wildcard
  · rw [hwild, Condition.holds]
    exact Act.avoids_pure true
  · rw [Condition.holds]
    · apply (Act.avoids_record _).bind
      intro _
      apply (Inquiry.avoids_fetchRequester context.requester).bind
      intro entity
      exact (restrictor.avoids_holds h entity).zoom _ _
    · exact hwild

theorem Condition.avoids_leaf (h : registry.NeverUndecided) (context : Context)
    (leaf : Condition) (hleaf : leaf.IsLeaf) :
    Act.Avoids .noDecision (leaf.holds registry context) := by
  cases leaf with
  | requester restrictor => exact Condition.avoids_requester h context restrictor
  | resourceId id =>
    rw [Condition.holds]
    exact (Act.avoids_record _).bind fun _ => Act.avoids_pure _
  | access allowed =>
    rw [Condition.holds]
    exact (Act.avoids_record _).bind fun _ => Act.avoids_pure _
  | custom name arg =>
    rw [Condition.holds]
    refine (Act.avoids_record _).bind fun _ => (Act.avoids_record _).bind fun _ => ?_
    exact Act.avoids_ofExcept (Operators.ask_ne_noDecision h.contextOps name arg context)
  | not tree => exact hleaf.elim
  | nor trees => exact hleaf.elim
  | or trees => exact hleaf.elim
  | and trees => exact hleaf.elim

theorem Tree.avoids_holds (h : registry.NeverUndecided) (context : Context) (tree : Tree) :
    Act.Avoids .noDecision (Tree.holds registry context tree) :=
  tree.compositional_holds Act.compositional_avoids (Condition.avoids_leaf h context)

theorem Content.avoids_reads (h : registry.NeverUndecided) (context : Context) (allowed : Bool)
    (contents : List Content) :
    Act.Avoids .noDecision (Content.reads registry context allowed contents) := by
  induction contents generalizing allowed with
  | nil =>
    rw [Content.reads]
    exact Act.avoids_pure _
  | cons content rest ih =>
    unfold Content.reads
    apply (Tree.avoids_holds h context content.check).bind
    intro holds
    cases holds with
    | false => exact ih allowed
    | true =>
      cases content.reaction with
      | none => exact ih allowed
      | some verdict =>
        cases verdict with
        | false => exact Act.avoids_pure _
        | true => exact ih true

theorem Registry.fault?_ne_noDecision (h : registry.NeverUndecided) (key : CustomKey) :
    registry.fault? key ≠ some .noDecision := by
  cases key with
  | clause name arg => exact Operators.fault?_ne_noDecision h.entityOps name arg
  | condition name arg => exact Operators.fault?_ne_noDecision h.contextOps name arg

theorem Policy.avoids_reading (h : registry.NeverUndecided) (context : Context)
    (policy : Policy) :
    Act.Avoids .noDecision (policy.reading registry context) := by
  rw [Policy.reading]
  cases hfault : (Content.customKeys policy.contents).findSome? registry.fault? with
  | none => exact Content.avoids_reads h context false policy.contents
  | some e =>
    intro s hs
    cases hs
    obtain ⟨key, -, hkey⟩ := List.exists_of_findSome?_eq_some hfault
    exact Registry.fault?_ne_noDecision h key hkey

/-- **A policy never fails for lack of a decision.** -/
theorem Engine.reaction_ne_noDecision {engine : Engine} (h : engine.Memoless)
    (hregistry : engine.checks.registry.NeverUndecided) (context : Context) (policy : Policy) :
    engine.reaction context policy ≠ .error .noDecision := by
  rw [Engine.reaction, Policy.react_memoless engine.checks.registry policy context h.checks_eq]
  exact Policy.avoids_reading hregistry context policy _

end PolicyDecision
