import PolicyDecision.Engine
import PolicyDecision.Proofs.Predicate
import PolicyDecision.Proofs.Reachability

/-!
# Engines that remember nothing

Without memos, nothing that evaluation does can be told afterwards, with one exception: the
requester is kept once it has been fetched. Since what is kept is the stored record, this makes no
difference either. So every part of evaluation is steady in the states that an evaluation over
given operators and entities passes through (`Evaluation.Over`), and what a policy reacts does not
depend on the policies that were asked before it.
-/

namespace PolicyDecision

/-- The engine remembers neither closures nor compiled checks. -/
structure Engine.Memoless (engine : Engine) : Prop where
  graph : engine.graph.memo = none
  checks : engine.checks.memo = none

theorem Engine.memoless_new {store : Store} {config : Config} {registry : Registry}
    (h : config.cache.enabled = false) : (Engine.new store config registry).Memoless := by
  constructor
  · show Memo.ofConfig config.cache = none
    rw [Memo.ofConfig, h]
    rfl
  · show Memo.ofConfig config.cache = none
    rw [Memo.ofConfig, h]
    rfl

namespace Engine.Memoless

variable {engine : Engine}

theorem graph_eq (h : engine.Memoless) : engine.graph = ⟨engine.graph.entities, none⟩ := by
  rw [← h.graph]

theorem checks_eq (h : engine.Memoless) : engine.checks = ⟨engine.checks.registry, none⟩ := by
  rw [← h.checks]

end Engine.Memoless

variable (entities : Table Entity)

/-! ### Entities -/

theorem Graph.steady_ancestorsOf (entity : Entity) (includeSelf : Bool) :
    Act.Steady (· = ⟨entities, none⟩) (Graph.ancestorsOf entity includeSelf) := by
  refine ⟨(Graph.ancestorsOf entity includeSelf ⟨entities, none⟩).result, fun s hs => ?_⟩
  rw [hs]
  exact ⟨rfl, (Graph.ancestorsOf_memoless entities includeSelf entity).2⟩

theorem Graph.steady_isSubOf (entity : Entity) (target : EntityId) :
    Act.Steady (· = ⟨entities, none⟩) (Graph.isSubOf entity target) := by
  rw [Graph.isSubOf]
  split
  · exact Act.steady_pure true
  · exact (Graph.steady_ancestorsOf entities entity false).bind fun _ => Act.steady_pure _

section Inherits

variable {entities} {entity : Entity} {target : EntityId}

/-- **An entity inherits from itself and from what it can reach.** That parents are recognised without
a walk makes no difference. -/
theorem Graph.isSubOf_sound {holds : Bool}
    (h : (isSubOf entity target ⟨entities, none⟩).result = .ok holds) :
    holds = true ↔ target = entity.id ∨ (entities.upsert entity).Ancestor entity.id target := by
  rw [isSubOf] at h
  split at h
  · next hnear =>
    cases h
    refine iff_of_true rfl ?_
    rcases hnear with hself | hparent
    · exact .inl hself.symm
    · exact .inr (.single ⟨entity, Table.find?_upsert_self entity, hparent⟩)
  · next hfar =>
    have hother : target ≠ entity.id := fun hself => hfar (.inl hself.symm)
    obtain ⟨closure, hclosure, hholds⟩ := Act.bind_eq_ok.1 h
    cases hholds
    rw [decide_eq_true_iff, (isClosure_ancestorsOf entities false entity).members closure hclosure,
      or_iff_right hother]
    simp

/-- Without a memo, whether an entity inherits is known if everything that it can reach is stored. -/
theorem Graph.isSubOf_answers (h : (entities.upsert entity).Resolves entity.id) (target : EntityId) :
    ∃ holds, (isSubOf entity target ⟨entities, none⟩).result = .ok holds := by
  rw [isSubOf]
  split
  · exact ⟨true, rfl⟩
  · obtain ⟨closure, hclosure⟩ := (isClosure_ancestorsOf entities false entity).answers.2 h
    exact ⟨_, Act.bind_eq_ok.2 ⟨closure, hclosure, rfl⟩⟩

end Inherits

/-- Tests of an entity are steady where asking for inheritance is. -/
theorem EntityTest.steady_eval {I : Graph → Prop} {entity : Entity}
    (hsub : ∀ target, Act.Steady I (Graph.isSubOf entity target)) (t : EntityTest) :
    Act.Steady I (t.eval entity) := by
  cases t with
  | hasId target =>
    rw [EntityTest.eval]
    exact (Act.steady_record _).bind fun _ => Act.steady_pure _
  | isSubOf target =>
    rw [EntityTest.eval]
    exact (Act.steady_record _).bind fun _ => hsub target
  | custom name arg test =>
    rw [EntityTest.eval]
    apply (Act.steady_record _).bind
    intro _
    exact (Act.steady_record _).bind fun _ => Act.steady_ofExcept _

theorem EntityPredicate.steady_eval {I : Graph → Prop} {entity : Entity}
    (hsub : ∀ target, Act.Steady I (Graph.isSubOf entity target)) (p : EntityPredicate) :
    Act.Steady I (p.eval entity) :=
  Predicate.compositional_run Act.compositional_steady (EntityTest.steady_eval hsub) p

/-! ### Requests -/

/-- The requester is the one that was kept, or else the stored one, which is kept from then on. -/
theorem Inquiry.fetchRequester_apply (requester : EntityId) (s : Inquiry) :
    let found := s.requester.or (s.graph.entities.find? requester)
    (Inquiry.fetchRequester requester s).result =
        found.elim (.error (.notFound requester)) .ok ∧
      (Inquiry.fetchRequester requester s).state = { s with requester := found } := by
  obtain ⟨graph, kept⟩ := s
  simp only [Inquiry.fetchRequester, Act.bind_apply, Act.get_apply]
  cases kept with
  | some e => exact ⟨rfl, rfl⟩
  | none =>
    simp only [Inquiry.onGraph, Act.bind_apply, Act.zoom_apply, Graph.retrieve_apply]
    cases graph.entities.find? requester with
    | none => exact ⟨rfl, rfl⟩
    | some e => exact ⟨rfl, rfl⟩

/-- The requester is the stored one, whether it has been fetched before or not. -/
theorem Inquiry.fetchRequester_of_kept {requester : EntityId} {s : Inquiry}
    (hkept : ∀ e, s.requester = some e → s.graph.entities.find? requester = some e) :
    (Inquiry.fetchRequester requester s).result =
        (s.graph.entities.find? requester).elim (.error (.notFound requester)) .ok ∧
      (Inquiry.fetchRequester requester s).state =
        { s with requester := s.graph.entities.find? requester } := by
  have hfound : s.requester.or (s.graph.entities.find? requester) =
      s.graph.entities.find? requester := by
    cases hrequester : s.requester with
    | none => exact Option.none_or
    | some e => rw [hkept e hrequester, Option.some_or]
  have happly := Inquiry.fetchRequester_apply requester s
  rwa [hfound] at happly

/-- The inquiry is about these entities, and `found` is whom it takes for the requester: the one that it
has kept, or else the stored one. -/
structure Inquiry.Finds (requester : EntityId) (found : Option Entity) (inquiry : Inquiry) : Prop where
  graph : inquiry.graph = ⟨entities, none⟩
  found : inquiry.requester.or (entities.find? requester) = found

theorem Inquiry.steady_fetchRequester (requester : EntityId) (found : Option Entity) :
    Act.Steady (Inquiry.Finds entities requester found) (Inquiry.fetchRequester requester) := by
  refine ⟨found.elim (.error (.notFound requester)) .ok, fun s hs => ?_⟩
  obtain ⟨hresult, hstate⟩ := Inquiry.fetchRequester_apply requester s
  have hfound : s.requester.or (s.graph.entities.find? requester) = found := by
    rw [hs.graph]
    exact hs.found
  rw [hresult, hstate, hfound]
  refine ⟨rfl, hs.graph, ?_⟩
  rw [← hs.found, Option.or_assoc, Option.or_self]

/-- The inquiry is about these entities, and the requester it has kept, if any, is the stored
one. -/
structure Inquiry.Over (requester : EntityId) (inquiry : Inquiry) : Prop where
  graph : inquiry.graph = ⟨entities, none⟩
  kept : ∀ e, inquiry.requester = some e → entities.find? requester = some e

theorem Inquiry.over_iff_finds {requester : EntityId} {inquiry : Inquiry} :
    Inquiry.Over entities requester inquiry ↔
      Inquiry.Finds entities requester (entities.find? requester) inquiry := by
  obtain ⟨graph, kept⟩ := inquiry
  constructor
  · rintro ⟨hgraph, hkept⟩
    cases kept with
    | none => exact ⟨hgraph, Option.none_or⟩
    | some e => exact ⟨hgraph, by rw [hkept e rfl, Option.some_or]⟩
  · rintro ⟨hgraph, hfound⟩
    refine ⟨hgraph, ?_⟩
    rintro e rfl
    exact hfound.symm

/-- Tests of a request are steady where testing the requester is. -/
theorem ContextTest.steady_eval {I : Inquiry → Prop} {context : Context}
    (hrequester : ∀ accepted : EntityPredicate, Act.Steady I (do
      let entity ← Inquiry.fetchRequester context.requester
      Inquiry.onGraph (accepted.eval entity)))
    (t : ContextTest) : Act.Steady I (t.eval context) := by
  cases t with
  | requester accepted =>
    rw [ContextTest.eval]
    exact (Act.steady_record _).bind fun _ => hrequester accepted
  | resourceIs id =>
    rw [ContextTest.eval]
    exact (Act.steady_record _).bind fun _ => Act.steady_pure _
  | accessWithin allowed =>
    rw [ContextTest.eval]
    exact (Act.steady_record _).bind fun _ => Act.steady_pure _
  | custom name arg test =>
    rw [ContextTest.eval]
    apply (Act.steady_record _).bind
    intro _
    exact (Act.steady_record _).bind fun _ => Act.steady_ofExcept _

theorem ContextPredicate.steady_eval_of_finds (p : ContextPredicate) (context : Context)
    (found : Option Entity) :
    Act.Steady (Inquiry.Finds entities context.requester found) (p.eval context) := by
  refine Predicate.compositional_run Act.compositional_steady (ContextTest.steady_eval ?_) p
  intro accepted
  refine (Inquiry.steady_fetchRequester entities context.requester found).bind fun entity => ?_
  have haccepted : Act.Steady (· = ⟨entities, none⟩) (accepted.eval entity) :=
    EntityPredicate.steady_eval (Graph.steady_isSubOf entities entity) accepted
  exact haccepted.zoom (fun _ hs => hs.graph) fun _ _ hs ht => ⟨ht, hs.found⟩

theorem ContextPredicate.steady_eval (p : ContextPredicate) (context : Context) :
    Act.Steady (Inquiry.Over entities context.requester) (p.eval context) := by
  have hsame : Inquiry.Over entities context.requester =
      Inquiry.Finds entities context.requester (entities.find? context.requester) :=
    funext fun _ => propext (Inquiry.over_iff_finds entities)
  rw [hsame]
  exact p.steady_eval_of_finds entities context _

/-! ### Policies -/

/-- Scanning is steady where evaluating predicates is. -/
theorem Content.steady_scan {I : Inquiry → Prop} {context : Context}
    (hcheck : ∀ p : ContextPredicate, Act.Steady I (p.eval context)) (allowed : Bool)
    (contents : List (ContextPredicate × Reaction)) :
    Act.Steady I (Content.scan context allowed contents) := by
  induction contents generalizing allowed with
  | nil =>
    rw [Content.scan]
    exact Act.steady_pure _
  | cons content rest ih =>
    obtain ⟨check, reaction⟩ := content
    unfold Content.scan
    apply (hcheck check).bind
    intro holds
    cases holds with
    | false => exact ih allowed
    | true =>
      match reaction with
      | some false => exact Act.steady_pure _
      | some true => exact ih true
      | none => exact ih allowed

variable (registry : Registry)

/-- Without a memo, compiled checks leave no trace. -/
theorem Checks.steady_compile (tree : Tree) :
    Act.Steady (· = ⟨registry, none⟩) (Checks.compile tree) := by
  refine ⟨(Tree.compile registry tree ()).result, fun s hs => ?_⟩
  rw [hs]
  exact ⟨rfl, rfl⟩

/-- The states that an evaluation over these operators and entities passes through. -/
structure Evaluation.Over (requester : EntityId) (evaluation : Evaluation) : Prop where
  checks : evaluation.checks = ⟨registry, none⟩
  inquiry : Inquiry.Over entities requester evaluation.inquiry

/-- **What a policy reacts does not depend on what was evaluated before.** -/
theorem Policy.steady_react (policy : Policy) (context : Context) :
    Act.Steady (Evaluation.Over entities registry context.requester) (policy.react context) := by
  rw [Policy.react]
  -- Compiling changes nothing; scanning may keep the requester, which `Over` allows.
  refine Act.Steady.bind ?_ fun contents => ?_
  · have hcompile : Act.Steady (· = ⟨registry, none⟩) (policy.contents.mapM Content.compile) :=
      Act.Steady.mapM fun content _ =>
        (Checks.steady_compile registry content.check).bind fun p => Act.steady_pure _
    exact hcompile.zoom (fun _ hs => hs.checks) fun _ _ hs ht => ⟨ht, hs.inquiry⟩
  · have hscan : Act.Steady (Inquiry.Over entities context.requester)
        (Content.scan context false contents) :=
      Content.steady_scan (fun check => check.steady_eval entities context) false contents
    exact hscan.zoom (fun _ hs => hs.inquiry) fun _ _ hs ht => ⟨hs.checks, ht⟩

end PolicyDecision
