import PolicyDecision.Proofs.AtHand
import PolicyDecision.Proofs.Reached
import PolicyDecision.Proofs.Turns

/-!
# The requester is resolved once

An evaluation has a slot for the requester. The first test of the requester asks for the stored entity and
fills the slot, and no later test asks again; nor does a walk from the requester, which does not fetch the
entity that it starts from (`Walk.root_not_fetched`). A fetch that fails leaves the slot empty, but it is the
last event on the trail, for no combination of conditions, no policy and no compounder goes on after a
failure.

What an operation does with the slot is a `Resolution`. It composes along `>>=` (`Resolution.append`), so a
predicate, a policy and a decision have one if every test has (`Act.Resolves`).
-/

namespace PolicyDecision

open Act

/-! ### Events that leave the requester alone -/

/-- The event does not ask for the entity, nor is it a test of the requester. -/
def Event.Spares (id : EntityId) (event : Event) : Prop :=
  event ≠ .fetched id ∧ event ≠ .reached .requester

theorem Trail.mem_fetches {trail : Trail} {id : EntityId} : id ∈ trail.fetches ↔ .fetched id ∈ trail := by
  rw [fetches, List.mem_filterMap]
  constructor
  · rintro ⟨event, hmem, hevent⟩
    cases event with
    | @fetched kind found =>
      cases kind with
      | entity =>
        cases hevent
        exact hmem
      | resource | policy => cases hevent
    | _ => cases hevent
  · exact fun hmem => ⟨_, hmem, rfl⟩

theorem Event.IsBuilding.spares {event : Event} (h : event.IsBuilding) (id : EntityId) :
    event.Spares id := by
  cases event with
  | built name arg => exact ⟨Event.noConfusion, Event.noConfusion⟩
  | _ => exact h.elim

theorem Event.spares_logged (id : EntityId) (notice : Notice) : Event.Spares id (.logged notice) :=
  ⟨Event.noConfusion, Event.noConfusion⟩

/-! ### Walks from the requester -/

/-- **A walk does not fetch the entity that it starts from.** -/
theorem Walk.root_not_fetched (entities : Table Entity) (root : Entity) (includeSelf : Bool) :
    root.id ∉ (ofEntity entities root includeSelf).fetched := by
  obtain ⟨n, way, hturns, hends⟩ := turns_visit entities root.id
    (if includeSelf then .ofList [root.id] else .empty) root.parents.toList []
  have hlogged : Logged entities root way := (logged_begun (.refl _)).turns hturns
  exact (hends.fetchesOnce hlogged).not_root

/-- Evaluating a predicate on the requester does not resolve the requester again. -/
theorem EntityPredicate.spares_eval (entity : Entity) (p : EntityPredicate) :
    Leaves (Event.Spares entity.id) (p.eval entity) := by
  refine p.leaves_eval (fun clause => ⟨Event.noConfusion, fun heq => by cases heq⟩)
    (fun name arg => ⟨Event.noConfusion, Event.noConfusion⟩)
    (Graph.leaves_resolve (fun entities id hid => ⟨?_, Event.noConfusion⟩) (Event.spares_logged entity.id))
  rintro heq
  cases heq
  exact Walk.root_not_fetched entities entity false hid

/-! ### The stored entities -/

namespace Graph

variable (entities : Table Entity)

theorem keeps_remembered (id : EntityId) (includeSelf : Bool) :
    Keeps (fun graph : Graph => graph.entities = entities) (remembered id includeSelf) := by
  refine ⟨fun graph hgraph => ?_, fun _ _ => trivial⟩
  rw [← hgraph]
  obtain ⟨stored, memo⟩ := graph
  cases memo <;> rfl

theorem keeps_resolve (root : Entity) (includeSelf : Bool) :
    Keeps (fun graph : Graph => graph.entities = entities) (resolve root includeSelf) := by
  refine ⟨fun graph hgraph => ?_, fun _ _ => trivial⟩
  rcases resolve_cases root includeSelf graph with ⟨missing, -, -, hstate⟩ | ⟨closure, -, -, hstate⟩
  · rwa [hstate]
  · rwa [hstate]

theorem keeps_ancestors (id : EntityId) (includeSelf : Bool) :
    Keeps (fun graph : Graph => graph.entities = entities) (ancestors id includeSelf) := by
  apply (keeps_remembered entities id includeSelf).bind
  intro hit
  cases hit with
  | some closure => exact keeps_pure closure
  | none =>
    have hretrieve : Keeps (fun graph : Graph => graph.entities = entities) (retrieve id) :=
      ⟨fun graph hgraph => by rwa [retrieve_apply], fun _ _ => trivial⟩
    exact hretrieve.bind fun entity => keeps_resolve entities entity includeSelf

theorem keeps_relevance (resource : Resource) :
    Keeps (fun graph : Graph => graph.entities = entities) (relevance resource) := by
  rw [relevance]
  cases resource.owner with
  | some owner => exact (keeps_ancestors entities owner true).bind fun _ => keeps_pure _
  | none => exact keeps_pure _

end Graph

/-- Evaluating a predicate on an entity changes no stored entity. -/
theorem EntityPredicate.keeps_entities (entities : Table Entity) (entity : Entity) (p : EntityPredicate) :
    Keeps (fun graph : Graph => graph.entities = entities) (p.eval entity) := by
  refine EntityPredicate.keeps_eval ?_ p
  apply (Graph.keeps_remembered entities entity.id false).bind
  intro hit
  cases hit with
  | some closure => exact keeps_pure closure
  | none => exact Graph.keeps_resolve entities entity false

/-! ### Resolving the requester -/

/-- What becomes of the slot for the requester, where this is the stored entity: it is filled already and
the requester is not asked for, or nothing needs the requester; or it is filled by the first test of the
requester, or that test fails, and with it everything. -/
inductive Resolution {α : Type} (id : EntityId) (stored : Option Entity) :
    Option Entity → Except Error α → Trail → Option Entity → Prop
  | kept {e : Entity} {result : Except Error α} {trail : Trail} (h : .fetched id ∉ trail) :
      Resolution id stored (some e) result trail (some e)
  | unasked {result : Except Error α} {trail : Trail} (h : ∀ event ∈ trail, event.Spares id) :
      Resolution id stored none result trail none
  | fetched {e : Entity} {result : Except Error α} {before after : Trail} (hstored : stored = some e)
      (hbefore : ∀ event ∈ before, event.Spares id) (hafter : .fetched id ∉ after) :
      Resolution id stored none result (before ++ .reached .requester :: .fetched id :: after) (some e)
  | missing {before : Trail} (hstored : stored = none) (hbefore : ∀ event ∈ before, event.Spares id) :
      Resolution id stored none (.error (.notFound id))
        (before ++ [.reached .requester, .fetched id]) none

namespace Resolution

variable {α β : Type} {id : EntityId} {stored slot slot' slot'' : Option Entity} {trail trail' : Trail}

theorem error {e : Error} (h : Resolution id stored slot (.error e : Except Error α) trail slot') :
    Resolution id stored slot (.error e : Except Error β) trail slot' := by
  cases h with
  | kept h => exact .kept h
  | unasked h => exact .unasked h
  | fetched hstored hbefore hafter => exact .fetched hstored hbefore hafter
  | missing hstored hbefore => exact .missing hstored hbefore

/-- The requester is fetched at once. -/
theorem fetched_first {e : Entity} {result : Except Error α} (hstored : stored = some e)
    (hafter : .fetched id ∉ trail) :
    Resolution id stored none result (.reached .requester :: .fetched id :: trail) (some e) :=
  fetched hstored (List.forall_mem_nil (Event.Spares id)) hafter

theorem missing_first (hstored : stored = none) :
    Resolution id stored none (.error (.notFound id) : Except Error α)
      [.reached .requester, .fetched id] none :=
  missing hstored (List.forall_mem_nil (Event.Spares id))

/-- **What follows a resolution** does not resolve the requester again. -/
theorem append {a : α} {result : Except Error β} (h : Resolution id stored slot (.ok a) trail slot')
    (h' : Resolution id stored slot' result trail' slot'') :
    Resolution id stored slot result (trail ++ trail') slot'' := by
  -- The slot that the first part leaves behind decides how the second can go on. A first part that misses
  -- the requester has failed, so nothing follows it.
  cases h with
  | kept h =>
    cases h' with
    | kept h' =>
      refine .kept fun hmem => ?_
      exact (List.mem_append.1 hmem).elim h h'
  | fetched hstored hbefore hafter =>
    cases h' with
    | kept h' =>
      rw [List.append_assoc]
      refine .fetched hstored hbefore fun hmem => ?_
      exact (List.mem_append.1 hmem).elim hafter h'
  | unasked h =>
    cases h' with
    | unasked h' => exact .unasked (List.forall_mem_append.2 ⟨h, h'⟩)
    | fetched hstored hbefore hafter =>
      rw [← List.append_assoc]
      exact .fetched hstored (List.forall_mem_append.2 ⟨h, hbefore⟩) hafter
    | missing hstored hbefore =>
      rw [← List.append_assoc]
      exact .missing hstored (List.forall_mem_append.2 ⟨h, hbefore⟩)

end Resolution

/-- The inquiry is about these entities, and whom it has kept is the requester. -/
structure Inquiry.About (id : EntityId) (entities : Table Entity) (inquiry : Inquiry) : Prop where
  entities_eq : inquiry.graph.entities = entities
  kept : ∀ e, inquiry.requester = some e → e.id = id

section

variable {σ τ α β : Type} {id : EntityId} {entities : Table Entity} {view : σ → Inquiry}

/-- The operation, which works on an inquiry, resolves the requester at most once. -/
def Act.Resolves (id : EntityId) (entities : Table Entity) (view : σ → Inquiry) (x : Act σ α) : Prop :=
  ∀ s, (view s).About id entities → (view (x s).state).About id entities ∧
    Resolution id (entities.find? id) (view s).requester (x s).result (x s).trail
      (view (x s).state).requester

/-- What leaves the slot as it is. -/
theorem Act.resolves_of_spares {x : Act σ α} (hspares : Leaves (Event.Spares id) x)
    (hkeeps : ∀ s, (view s).About id entities → (view (x s).state).About id entities ∧
      (view (x s).state).requester = (view s).requester) : Act.Resolves id entities view x := by
  intro s hs
  obtain ⟨habout, hrequester⟩ := hkeeps s hs
  refine ⟨habout, ?_⟩
  rw [hrequester]
  cases (view s).requester with
  | none => exact .unasked (hspares s)
  | some e => exact .kept fun hmem => (hspares s _ hmem).1 rfl

theorem Act.Resolves.bind {x : Act σ α} {f : α → Act σ β} (hx : Act.Resolves id entities view x)
    (hf : ∀ a, Act.Resolves id entities view (f a)) : Act.Resolves id entities view (x >>= f) := by
  intro s hs
  obtain ⟨habout, hfirst⟩ := hx s hs
  cases hresult : (x s).result with
  | error e =>
    rw [hresult] at hfirst
    rw [bind_error hresult]
    exact ⟨habout, hfirst.error⟩
  | ok a =>
    rw [hresult] at hfirst
    rw [bind_ok hresult]
    obtain ⟨habout', hsecond⟩ := hf a (x s).state habout
    exact ⟨habout', hfirst.append hsecond⟩

theorem Act.Resolves.zoom {view' : τ → Inquiry} {x : Act τ α} (hx : Act.Resolves id entities view' x)
    {part : σ → τ} {put : τ → σ → σ} (hpart : ∀ s, view' (part s) = view s)
    (hput : ∀ s t, view (put t s) = view' t) : Act.Resolves id entities view (Act.zoom part put x) := by
  intro s hs
  rw [← hpart s] at hs ⊢
  rw [zoom_apply, hput]
  exact hx (part s) hs

theorem Act.compositional_resolves (id : EntityId) (entities : Table Entity) :
    Act.Compositional fun x : Act Inquiry Bool => Act.Resolves id entities (fun inquiry => inquiry) x where
  pure b := resolves_of_spares (leaves_pure b) fun _ hs => ⟨hs, rfl⟩
  bind := Act.Resolves.bind

theorem Act.resolves_record {event : Event} (h : event.Spares id) :
    Act.Resolves id entities view (Act.record event : Act σ Unit) :=
  resolves_of_spares (leaves_record h) fun _ hs => ⟨hs, rfl⟩

theorem Act.resolves_pure (a : α) : Act.Resolves id entities view (Pure.pure a : Act σ α) :=
  resolves_of_spares (leaves_pure a) fun _ hs => ⟨hs, rfl⟩

theorem Act.resolves_throw (e : Error) : Act.Resolves id entities view (throw e : Act σ α) :=
  resolves_of_spares (leaves_throw e) fun _ hs => ⟨hs, rfl⟩

theorem Act.resolves_ofExcept (result : Except Error α) :
    Act.Resolves id entities view (Act.ofExcept result : Act σ α) :=
  resolves_of_spares (leaves_ofExcept result) fun _ hs => ⟨hs, rfl⟩

end

theorem Inquiry.fetchRequester_kept (id : EntityId) (graph : Graph) (e : Entity) :
    fetchRequester id ⟨graph, some e⟩ = ⟨.ok e, ⟨graph, some e⟩, []⟩ := rfl

theorem Inquiry.fetchRequester_stored {id : EntityId} {graph : Graph} {e : Entity}
    (h : graph.entities.find? id = some e) :
    fetchRequester id ⟨graph, none⟩ = ⟨.ok e, ⟨graph, some e⟩, [.fetched id]⟩ := by
  simp only [fetchRequester, onGraph, Graph.retrieve_apply, bind_apply, get_apply, zoom_apply, h]
  rfl

theorem Inquiry.fetchRequester_missing {id : EntityId} {graph : Graph}
    (h : graph.entities.find? id = none) :
    fetchRequester id ⟨graph, none⟩ = ⟨.error (.notFound id), ⟨graph, none⟩, [.fetched id]⟩ := by
  simp only [fetchRequester, onGraph, Graph.retrieve_apply, bind_apply, get_apply, zoom_apply, h]
  rfl

/-- **A test of the requester** resolves the requester, unless that has been done. -/
theorem ContextTest.resolves_requester (context : Context) (entities : Table Entity)
    (accepted : EntityPredicate) :
    Act.Resolves context.requester entities (fun inquiry => inquiry)
      ((ContextTest.requester accepted).eval context) := by
  rintro ⟨graph, slot⟩ ⟨rfl, hkept⟩
  -- Whether it is found in the slot or in the store, what is evaluated on is the requester, and no walk from
  -- there comes back to it.
  have heval : ∀ e : Entity, e.id = context.requester →
      (accepted.eval e graph).state.entities = graph.entities ∧
        .fetched context.requester ∉ (accepted.eval e graph).trail := by
    intro e he
    refine ⟨(accepted.keeps_entities graph.entities e).keeps graph rfl, fun hmem => ?_⟩
    exact (accepted.spares_eval e graph _ hmem).1 (by rw [he])
  rw [eval, bind_apply]
  dsimp only [record_apply]
  cases slot with
  | some e =>
    obtain ⟨hentities, hspares⟩ := heval e (hkept e rfl)
    rw [bind_apply, Inquiry.fetchRequester_kept]
    refine ⟨⟨hentities, hkept⟩, .kept fun hmem => ?_⟩
    rcases List.mem_cons.1 hmem with hreached | hmem
    · cases hreached
    · exact hspares hmem
  | none =>
    cases hstored : graph.entities.find? context.requester with
    | none =>
      rw [bind_apply, Inquiry.fetchRequester_missing hstored]
      exact ⟨⟨rfl, hkept⟩, .missing_first rfl⟩
    | some e =>
      have hid : e.id = context.requester := Table.idOf_of_find? hstored
      obtain ⟨hentities, hspares⟩ := heval e hid
      rw [bind_apply, Inquiry.fetchRequester_stored hstored]
      refine ⟨⟨hentities, fun e' he' => ?_⟩, .fetched_first rfl hspares⟩
      cases he'
      exact hid

theorem ContextTest.resolves_eval (context : Context) (entities : Table Entity) (t : ContextTest) :
    Act.Resolves context.requester entities (fun inquiry => inquiry) (t.eval context) := by
  cases t with
  | requester accepted => exact resolves_requester context entities accepted
  | resourceIs id =>
    exact (resolves_record ⟨Event.noConfusion, fun heq => by cases heq⟩).bind fun _ => resolves_pure _
  | accessWithin allowed =>
    exact (resolves_record ⟨Event.noConfusion, fun heq => by cases heq⟩).bind fun _ => resolves_pure _
  | custom name arg test =>
    refine (resolves_record ⟨Event.noConfusion, fun heq => by cases heq⟩).bind fun _ => ?_
    exact (resolves_record ⟨Event.noConfusion, Event.noConfusion⟩).bind fun _ => resolves_ofExcept _

theorem ContextPredicate.resolves_eval (context : Context) (entities : Table Entity)
    (p : ContextPredicate) :
    Act.Resolves context.requester entities (fun inquiry => inquiry) (p.eval context) :=
  Predicate.compositional_run (compositional_resolves _ _) (ContextTest.resolves_eval context entities) p

/-! ### Policies and decisions -/

section

variable (context : Context) (entities : Table Entity)

theorem Content.resolves_scan (allowed : Bool) (contents : List (ContextPredicate × Reaction)) :
    Act.Resolves context.requester entities (fun inquiry => inquiry)
      (Content.scan context allowed contents) := by
  induction contents generalizing allowed with
  | nil => exact resolves_pure _
  | cons content rest ih =>
    obtain ⟨check, reaction⟩ := content
    apply (check.resolves_eval context entities).bind
    intro holds
    cases holds with
    | false => exact ih allowed
    | true =>
      cases reaction with
      | none => exact ih allowed
      | some verdict =>
        cases verdict with
        | false => exact resolves_pure _
        | true => exact ih true

theorem Policy.resolves_react (policy : Policy) :
    Act.Resolves context.requester entities Evaluation.inquiry (policy.react context) := by
  have hcontents : Leaves (Event.Spares context.requester) (policy.contents.mapM Content.compile) :=
    .mapM fun content => (Content.builds_compile content).mono fun event h => h.spares _
  have hcompile : Act.Resolves context.requester entities Evaluation.inquiry
      (Evaluation.onChecks (policy.contents.mapM Content.compile)) :=
    resolves_of_spares (hcontents.zoom _ _) fun _ hs => ⟨hs, rfl⟩
  exact hcompile.bind fun contents =>
    (Content.resolves_scan context entities false contents).zoom (fun _ => rfl) fun _ _ => rfl

namespace Compounder

variable (compounder : Compounder) (candidates : List Policy)

theorem resolves_consult (input : Consultation) :
    Act.Resolves context.requester entities Evaluation.inquiry (compounder.consult input) :=
  (resolves_record ⟨Event.noConfusion, Event.noConfusion⟩).bind fun _ => resolves_ofExcept _

theorem resolves_concludeAfter (reactions : List Reaction) :
    Act.Resolves context.requester entities Evaluation.inquiry
      (compounder.concludeAfter context candidates reactions) := by
  rw [concludeAfter]
  split
  · apply (resolves_consult context entities compounder _).bind
    intro step
    cases step with
    | conclude verdict =>
      exact (resolves_record (Event.spares_logged _ _)).bind fun _ => resolves_pure verdict
    | proceed => exact resolves_throw _
  · exact (resolves_record (Event.spares_logged _ _)).bind fun _ => resolves_throw _

/-- **A decision resolves the requester at most once.** -/
theorem resolves_decideFrom (rest : List Policy) (reactions : List Reaction) :
    Act.Resolves context.requester entities Evaluation.inquiry
      (compounder.decideFrom context candidates reactions rest) := by
  induction rest generalizing reactions with
  | nil => exact resolves_concludeAfter context entities compounder candidates reactions
  | cons policy rest ih =>
    unfold decideFrom
    refine (Policy.resolves_react context entities policy).bind fun reaction => ?_
    refine (resolves_record (Event.spares_logged _ _)).bind fun _ => ?_
    split
    · apply (resolves_consult context entities compounder _).bind
      intro step
      cases step with
      | conclude verdict =>
        exact (resolves_record (Event.spares_logged _ _)).bind fun _ => resolves_pure verdict
      | proceed => exact ih _
    · exact ih _

end Compounder
end

/-- The stored entities stay during the search. -/
theorem Engine.candidates_entities (resource : Resource) (engine : Engine) :
    (Engine.candidates resource engine).state.graph.entities = engine.graph.entities := by
  have hkeeps : Keeps (fun engine' : Engine => engine'.graph.entities = engine.graph.entities)
      (Engine.candidates resource) :=
    Engine.keeps_candidates (Graph.keeps_relevance engine.graph.entities resource) (fun _ h => h)
      fun _ _ _ h => h
  exact hkeeps.keeps engine rfl

/-! ### Requests -/

namespace Resolution

variable {α : Type} {id : EntityId} {stored slot : Option Entity} {result : Except Error α}
  {trail : Trail}

theorem count_le_one (h : Resolution id stored none result trail slot) :
    trail.fetches.count id ≤ 1 := by
  have hcount : ∀ {part : Trail}, .fetched id ∉ part → part.fetches.count id = 0 := fun hpart =>
    List.count_eq_zero.2 fun hmem => hpart (Trail.mem_fetches.1 hmem)
  cases h with
  | unasked h => exact (hcount fun hmem => (h _ hmem).1 rfl).trans_le (Nat.zero_le 1)
  | @fetched e result before after hstored hbefore hafter =>
    have hfetches : Trail.fetches (before ++ .reached .requester :: .fetched id :: after) =
        Trail.fetches before ++ id :: Trail.fetches after := Trail.fetches_append _ _
    rw [hfetches, List.count_append, List.count_cons_self, hcount hafter,
      hcount fun hmem => (hbefore _ hmem).1 rfl]
  | @missing before hstored hbefore =>
    have hfetches : Trail.fetches (before ++ [.reached .requester, .fetched id]) =
        Trail.fetches before ++ [id] := Trail.fetches_append _ _
    rw [hfetches, List.count_append, List.count_singleton_self, hcount fun hmem => (hbefore _ hmem).1 rfl]

theorem fetched_iff_reached (h : Resolution id stored none result trail slot) :
    id ∈ trail.fetches ↔ .reached .requester ∈ trail := by
  rw [Trail.mem_fetches]
  cases h with
  | unasked h => exact iff_of_false (fun hmem => (h _ hmem).1 rfl) fun hmem => (h _ hmem).2 rfl
  | fetched hstored hbefore hafter => exact iff_of_true (by simp) (by simp)
  | missing hstored hbefore => exact iff_of_true (by simp) (by simp)

/-- **If the requester is not stored**, asking for it is the end. -/
theorem ends_of_missing (h : Resolution id none none result trail slot) (hmem : id ∈ trail.fetches) :
    result = .error (.notFound id) ∧ ∃ before, trail = before ++ [.reached .requester, .fetched id] := by
  rw [Trail.mem_fetches] at hmem
  cases h with
  | unasked h => exact ((h _ hmem).1 rfl).elim
  | fetched hstored hbefore hafter => cases hstored
  | @missing before hstored hbefore => exact ⟨rfl, before, rfl⟩

end Resolution

namespace Engine

/-- What a decision does with its slot for the requester. -/
theorem resolution_decision (request : Request) (compounder : Compounder) (resource : Resource)
    (policies : List Policy) (engine : Engine) :
    let outcome := decision request compounder resource policies engine
    Resolution request.requester (engine.graph.entities.find? request.requester) none outcome.result
      outcome.trail outcome.state.inquiry.requester := by
  have hstart : ((candidates resource engine).state.evaluation none).inquiry.About request.requester
      engine.graph.entities :=
    ⟨candidates_entities resource engine, fun _ h => by cases h⟩
  exact (Compounder.resolves_decideFrom ⟨request.requester, request.access, resource.id⟩
    engine.graph.entities compounder policies policies [] _ hstart).2

/-- **The requester is resolved at most once.** Whatever has been done with an engine over any store with any
operators, a request asks for the requester at most once while policies are evaluated, and not at all unless
a condition is reached that tests the requester, which the bare wildcard does not. If the requester is not
stored, the request fails with that, and nothing happens afterwards. -/
theorem requester_resolved_once (store : Store) (config : Config) (registry : Registry)
    (operations : List Operation) (request : Request) (compounder : Compounder) :
    let engine := (new store config registry).run operations
    let checked := check request compounder engine
    let fetches := checked.trail.afterSearch.fetches
    fetches.count request.requester ≤ 1 ∧
    (request.requester ∈ fetches ↔
      ∃ target, engine.Reaches request compounder target ∧ target.TestsRequester) ∧
    (request.requester ∈ fetches → engine.graph.entities.find? request.requester = none →
      checked.result = .error (.notFound request.requester) ∧
      ∃ before, checked.trail = before ++ [.reached .requester, .fetched request.requester]) := by
  intro engine checked fetches
  have hsourced : engine.checks.Sourced := sourced_run store config registry operations
  rw [← reached_requester_iff hsourced]
  by_cases hfinds : ∃ resource policies, engine.Finds request resource policies
  · obtain ⟨resource, policies, hfinds⟩ := hfinds
    obtain ⟨hresult, before, -, htrail⟩ := check_of_finds hfinds compounder
    have hevaluated := afterSearch_of_finds hfinds compounder
    have hresolution := resolution_decision request compounder resource policies engine
    have hfetches : fetches = (decision request compounder resource policies engine).trail.fetches :=
      (congrArg Trail.fetches hevaluated).trans rfl
    rw [hfetches, hevaluated, hresult, hresolution.fetched_iff_reached]
    refine ⟨hresolution.count_le_one, by simp, fun hreached hmissing => ?_⟩
    have hfetched := hresolution.fetched_iff_reached.2 hreached
    rw [hmissing] at hresolution
    -- The decision ends with the fetch, and the request adds nothing after the decision.
    obtain ⟨herror, rest, hrest⟩ := hresolution.ends_of_missing hfetched
    refine ⟨herror, before ++ .searched ::
      .logged (.candidatesFound policies.length resource.id resource.type) :: rest, ?_⟩
    rw [htrail, hrest, List.append_assoc]
    rfl
  · have hnone : checked.trail.afterSearch = [] :=
      afterSearch_of_not_finds (fun resource policies h => hfinds ⟨resource, policies, h⟩) compounder
    rw [show fetches = [] from congrArg Trail.fetches hnone, hnone]
    simp

/-- A requester that is not stored, and two contents that both test it below a negation. -/
theorem requester_resolved_once_missing :
    let content : Content := ⟨[.nor [[.requester .noOwner], [.access (.one "read")]]], some true⟩
    let allows : Policy := { id := ⟨⟨1⟩⟩, selector := some .wildcard, contents := [content, content] }
    let store : Store := { policies := .ofList [allows] }
    let engine := (new store { cache := { enabled := true } } {}).run [.upsertPolicy allows]
    let request : Request := ⟨⟨⟨4⟩⟩, .one "read", .given { id := ⟨⟨3⟩⟩ }⟩
    let checked := check request CompounderKind.denyOverrides.compounder engine
    checked.trail.afterSearch.fetches = [request.requester] ∧
      (∃ target, engine.Reaches request CompounderKind.denyOverrides.compounder target ∧
        target.TestsRequester) ∧
      engine.graph.entities.find? request.requester = none ∧
      checked.result = .error (.notFound request.requester) ∧
      ∃ before, checked.trail = before ++ [.reached .requester, .fetched request.requester] := by
  intro content allows store engine request checked
  have hfinds : engine.Finds request { id := ⟨⟨3⟩⟩ } [allows] := by
    refine ⟨rfl, ?_⟩
    show Except.ok (Policy.byPriority (Policy.byPriority [allows])) = _
    simp only [Policy.byPriority_singleton]
  have hfetches : checked.trail.afterSearch.fetches = [request.requester] := by
    rw [afterSearch_of_finds hfinds]
    cbv
  have hfetched : request.requester ∈ checked.trail.afterSearch.fetches := by
    rw [hfetches]
    exact List.mem_singleton_self _
  obtain ⟨-, hiff, hmissing⟩ := requester_resolved_once store { cache := { enabled := true } } {}
    [.upsertPolicy allows] request CompounderKind.denyOverrides.compounder
  exact ⟨hfetches, hiff.1 hfetched, rfl, hmissing hfetched rfl⟩

end Engine
end PolicyDecision
