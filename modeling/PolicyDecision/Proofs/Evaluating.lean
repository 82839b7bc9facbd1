import PolicyDecision.Engine
import PolicyDecision.Proofs.Compilation

/-!
# Evaluation asks no compounder

A compounder is asked by the loop of a decision and by nothing below it: neither compiling nor evaluating
nor the search for candidates leaves a consultation on the trail. Looking up a resource, or the ancestors of
an entity, leaves fetches and log lines, and compiling leaves nothing but the building of operators.
-/

namespace PolicyDecision

/-- What the compounders were shown that were asked on the way. -/
def Trail.consultations (trail : Trail) : List Consultation :=
  trail.filterMap fun
    | .consulted input => some input
    | _ => none

@[simp] theorem Trail.consultations_nil : Trail.consultations [] = [] := rfl

@[simp] theorem Trail.consultations_logged (notice : Notice) (trail : Trail) :
    Trail.consultations (.logged notice :: trail) = trail.consultations := rfl

@[simp] theorem Trail.consultations_consulted (input : Consultation) (trail : Trail) :
    Trail.consultations (.consulted input :: trail) = input :: trail.consultations := rfl

@[simp] theorem Trail.consultations_append (trail trail' : Trail) :
    Trail.consultations (trail ++ trail') = trail.consultations ++ trail'.consultations :=
  List.filterMap_append

/-- The event is not the asking of a compounder. -/
def Event.IsQuiet : Event → Prop
  | .consulted _ => False
  | _ => True

theorem Event.IsBuilding.quiet {event : Event} (h : event.IsBuilding) : event.IsQuiet := by
  cases event with
  | built name arg => trivial
  | _ => exact h.elim

theorem Trail.consultations_of_quiet {trail : Trail} (h : ∀ event ∈ trail, event.IsQuiet) :
    trail.consultations = [] := by
  apply List.filterMap_eq_nil_iff.2
  intro event hevent
  have hquiet := h event hevent
  cases event with
  | consulted input => exact hquiet.elim
  | _ => rfl

/-! ### Looking up -/

/-- The event is the asking for a document or a line that is logged. -/
def Event.IsLookup : Event → Prop
  | .fetched _ | .logged _ => True
  | _ => False

theorem Event.IsLookup.quiet {event : Event} (h : event.IsLookup) : event.IsQuiet := by
  cases event with
  | fetched id => trivial
  | logged notice => trivial
  | _ => exact h.elim

open Act

namespace Graph

section

variable {P : Event → Prop} {entity : Entity} {includeSelf : Bool}

/-- Walking leaves the fetches of the walk, and a line that is logged. -/
theorem leaves_resolve
    (hfetched : ∀ entities, ∀ id ∈ (Walk.ofEntity entities entity includeSelf).fetched, P (.fetched id))
    (hlogged : ∀ notice, P (.logged notice)) : Leaves P (resolve entity includeSelf) := by
  refine leaves_get.bind fun graph => (leaves_recordAll ?_).bind fun _ => ?_
  · intro event hevent
    obtain ⟨id, hid, rfl⟩ := List.mem_map.1 hevent
    exact hfetched graph.entities id hid
  · cases (Walk.ofEntity graph.entities entity includeSelf).result with
    | error missing => exact leaves_throw _
    | ok closure =>
      exact (leaves_record (hlogged _)).bind fun _ => (leaves_modify _).bind fun _ => leaves_pure closure

theorem leaves_remembered (id : EntityId) (includeSelf : Bool) : Leaves P (remembered id includeSelf) := by
  intro graph event hevent
  cases hevent

theorem leaves_ancestorsOf (hresolve : Leaves P (resolve entity includeSelf)) :
    Leaves P (ancestorsOf entity includeSelf) := by
  refine (leaves_remembered entity.id includeSelf).bind fun hit => ?_
  cases hit with
  | some closure => exact leaves_pure closure
  | none => exact hresolve

theorem leaves_isSubOf (hresolve : Leaves P (resolve entity false)) (target : EntityId) :
    Leaves P (isSubOf entity target) := by
  rw [isSubOf]
  split
  · exact leaves_pure true
  · exact (leaves_ancestorsOf hresolve).bind fun _ => leaves_pure _

end

theorem looksUp_retrieve (id : EntityId) : Leaves Event.IsLookup (retrieve id) := by
  refine (leaves_record trivial).bind fun _ => leaves_get.bind fun graph => ?_
  cases graph.entities.find? id with
  | some entity => exact leaves_pure entity
  | none => exact leaves_throw _

theorem looksUp_resolve (root : Entity) (includeSelf : Bool) :
    Leaves Event.IsLookup (resolve root includeSelf) :=
  leaves_resolve (fun _ _ _ => trivial) fun _ => trivial

theorem looksUp_ancestors (id : EntityId) (includeSelf : Bool) :
    Leaves Event.IsLookup (ancestors id includeSelf) := by
  refine (leaves_remembered id includeSelf).bind fun hit => ?_
  cases hit with
  | some closure => exact leaves_pure closure
  | none => exact (looksUp_retrieve id).bind fun entity => looksUp_resolve entity includeSelf

theorem looksUp_relevance (resource : Resource) : Leaves Event.IsLookup (relevance resource) := by
  rw [relevance]
  cases resource.owner with
  | some owner => exact (looksUp_ancestors owner true).bind fun _ => leaves_pure _
  | none => exact leaves_pure _

end Graph

/-! ### Predicates -/

/-- Evaluating a predicate on an entity leaves the clauses that are reached, the custom operators that are
evaluated, and what asking for inheritance leaves. -/
theorem EntityPredicate.leaves_eval {P : Event → Prop} {entity : Entity}
    (hclause : ∀ clause, P (.reached (.clause clause))) (hevaluated : ∀ name arg, P (.evaluated name arg))
    (hresolve : Leaves P (Graph.resolve entity false)) (p : EntityPredicate) :
    Leaves P (p.eval entity) := by
  refine Predicate.compositional_run compositional_leaves (fun test => ?_) p
  cases test with
  | hasId target => exact (leaves_record (hclause _)).bind fun _ => leaves_pure _
  | isSubOf target =>
    exact (leaves_record (hclause _)).bind fun _ => Graph.leaves_isSubOf hresolve target
  | custom name arg test =>
    exact (leaves_record (hclause _)).bind fun _ => (leaves_record (hevaluated name arg)).bind fun _ =>
      leaves_ofExcept _

theorem Inquiry.quiet_fetchRequester (id : EntityId) :
    Leaves Event.IsQuiet (Inquiry.fetchRequester id) := by
  refine leaves_get.bind fun inquiry => ?_
  cases inquiry.requester with
  | some entity => exact leaves_pure entity
  | none =>
    have hretrieve : Leaves Event.IsQuiet (Graph.retrieve id) :=
      (Graph.looksUp_retrieve id).mono fun _ => Event.IsLookup.quiet
    exact (hretrieve.zoom _ _).bind fun entity => (leaves_modify _).bind fun _ => leaves_pure entity

theorem ContextTest.quiet_eval (context : Context) (test : ContextTest) :
    Leaves Event.IsQuiet (test.eval context) := by
  cases test with
  | requester accepted =>
    refine (leaves_record trivial).bind fun _ =>
      (Inquiry.quiet_fetchRequester context.requester).bind fun entity => ?_
    have haccepted : Leaves Event.IsQuiet (accepted.eval entity) :=
      accepted.leaves_eval (fun _ => trivial) (fun _ _ => trivial)
        ((Graph.looksUp_resolve entity false).mono fun _ => Event.IsLookup.quiet)
    exact haccepted.zoom _ _
  | resourceIs id => exact (leaves_record trivial).bind fun _ => leaves_pure _
  | accessWithin allowed => exact (leaves_record trivial).bind fun _ => leaves_pure _
  | custom name arg test =>
    exact (leaves_record trivial).bind fun _ => (leaves_record trivial).bind fun _ => leaves_ofExcept _

theorem ContextPredicate.quiet_eval (p : ContextPredicate) (context : Context) :
    Leaves Event.IsQuiet (p.eval context) :=
  Predicate.compositional_run compositional_leaves (ContextTest.quiet_eval context) p

/-! ### Policies -/

theorem Checks.builds_make (tree : Tree) : Leaves Event.IsBuilding (Checks.make tree) :=
  fun checks => (Tree.makes_compile checks.registry tree).trail

/-- Compiling builds custom operators and evaluates nothing, be there a memo or not. -/
theorem Checks.builds_compile (tree : Tree) : Leaves Event.IsBuilding (Checks.compile tree) := by
  refine leaves_get.bind fun checks => ?_
  cases checks.memo with
  | none => exact builds_make tree
  | some memo =>
    dsimp only
    cases Tree.shadowedBuiltin? tree with
    | some name => exact leaves_throw _
    | none =>
      have hremembered : Leaves Event.IsBuilding
          (Checks.remembered memo (Tree.toJson tree).compact) :=
        (leaves_modify _).bind fun _ => leaves_pure _
      apply hremembered.bind
      intro hit
      cases hit with
      | some p => exact leaves_pure p
      | none => exact (builds_make tree).bind fun p => (leaves_modify _).bind fun _ => leaves_pure p

theorem Content.builds_compile (content : Content) :
    Leaves Event.IsBuilding (Content.compile content) :=
  (Checks.builds_compile content.check).bind fun _ => leaves_pure _

theorem Content.quiet_scan (context : Context) (allowed : Bool)
    (contents : List (ContextPredicate × Reaction)) :
    Leaves Event.IsQuiet (Content.scan context allowed contents) := by
  induction contents generalizing allowed with
  | nil => exact leaves_pure _
  | cons content rest ih =>
    obtain ⟨check, reaction⟩ := content
    apply (check.quiet_eval context).bind
    intro holds
    cases holds with
    | false => exact ih allowed
    | true =>
      match reaction with
      | some false => exact leaves_pure _
      | some true => exact ih true
      | none => exact ih allowed

/-- **A policy reacts without a compounder.** -/
theorem Policy.quiet_react (policy : Policy) (context : Context) :
    Leaves Event.IsQuiet (policy.react context) := by
  have hcontents : Leaves Event.IsQuiet (policy.contents.mapM Content.compile) :=
    .mapM fun content => (Content.builds_compile content).mono fun event => Event.IsBuilding.quiet
  exact (hcontents.zoom _ _).bind fun contents => (Content.quiet_scan context false contents).zoom _ _

/-! ### Candidates -/

namespace Engine

theorem looksUp_resolve (ref : ResourceRef) : Leaves Event.IsLookup (resolve ref) := by
  cases ref with
  | given resource => exact leaves_pure resource
  | byId id =>
    refine (leaves_record trivial).bind fun _ => leaves_get.bind fun engine => ?_
    cases engine.resources.find? id with
    | some resource => exact leaves_pure resource
    | none => exact leaves_throw _

theorem quiet_resolve (ref : ResourceRef) : Leaves Event.IsQuiet (resolve ref) :=
  (looksUp_resolve ref).mono fun _ => Event.IsLookup.quiet

theorem quiet_candidates (resource : Resource) : Leaves Event.IsQuiet (candidates resource) := by
  have hrelevance : Leaves Event.IsQuiet (Graph.relevance resource) :=
    (Graph.looksUp_relevance resource).mono fun _ => Event.IsLookup.quiet
  refine (hrelevance.zoom _ _).bind fun relevance => ?_
  refine (leaves_record trivial).bind fun _ => leaves_get.bind fun engine => ?_
  exact (leaves_record trivial).bind fun _ => leaves_pure _

end Engine
end PolicyDecision
