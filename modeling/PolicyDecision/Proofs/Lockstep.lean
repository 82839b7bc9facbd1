import PolicyDecision.Proofs.Reached
import PolicyDecision.Proofs.Settled
import PolicyDecision.Proofs.Undecided

/-!
# Engines in lockstep

Two engines over the same documents and operators, which differ in what they remember, decide alike
after any operations (`Engine.check_lockstep`).

What carries this is `Engine.Current`: the engine holds certain documents, every closure that it
remembers is what a walk would find now, and every predicate was made with the operators registered now.
Each operation keeps it, for the documents that the operation writes (`Engine.Current.perform`). A new
entity forgets no closure, but what is remembered does not reach it.

A request comes to what the documents alone say (`Documents.decide`), if no leaf fails; but where a tree
cannot be made a predicate, which of its faults is reported depends on what is remembered. If a factory may
claim that there is no decision, this is a difference between no decision and another failure
(`Engine.check_lockstep_undecided`).
-/

namespace PolicyDecision

/-! ### Documents -/

/-- Documents and operators, without anything that is remembered. -/
structure Documents extends Store where
  registry : Registry

namespace Documents

/-- The resource of a request. -/
def resource (docs : Documents) : ResourceRef → Except Error Resource
  | .byId id => (docs.resources.find? id).elim (.error (.notFound id)) .ok
  | .given resource => .ok resource

def relevance (docs : Documents) (resource : Resource) : Except Error Relevance :=
  match resource.owner with
  | some owner => (docs.entities.closure owner true).map (.ofResource resource)
  | none => .ok (.ofResource resource .empty)

def candidates (docs : Documents) (resource : Resource) : Except Error (List Policy) :=
  (docs.relevance resource).map fun relevance =>
    Policy.byPriority (relevance.candidates docs.policies.docs)

/-- What the documents say to a request, if no leaf fails. -/
def decide (docs : Documents) (request : Request) (compounder : Compounder) : Except Error Bool := do
  let resource ← docs.resource request.resource
  let policies ← docs.candidates resource
  let context : Context := ⟨request.requester, request.access, resource.id⟩
  compounder.settleFrom (Policy.outcome docs.registry docs.entities context) policies [] policies

end Documents

/-! ### What engines hold -/

/-- The engine holds these documents and operators, and what it remembers is up to date. -/
structure Engine.Current (docs : Documents) (engine : Engine) : Prop where
  graph : engine.graph.Current docs.entities
  resources : engine.resources = docs.resources
  policies : engine.policies = docs.policies
  checks : engine.checks.Remembers docs.registry (Checks.MadeOf docs.registry fun _ => True)

namespace Engine

variable {docs : Documents} {engine : Engine} {α : Type} {R : Except Error α → Prop}

theorem current_new (store : Store) (config : Config) (registry : Registry) :
    (new store config registry).Current ⟨store, registry⟩ where
  graph := Graph.current_new store.entities config.cache
  resources := rfl
  policies := rfl
  checks := Checks.remembers_new registry config.cache

theorem ensures_onGraph {x : Act Graph α} (hx : Act.Ensures (Graph.Current docs.entities) R x) :
    Act.Ensures (Current docs) R (onGraph x) :=
  hx.zoom (fun _ h => h.graph) fun _ _ h hgraph => ⟨hgraph, h.resources, h.policies, h.checks⟩

theorem ensures_onChecks {x : Act Checks α}
    (hx : Act.Ensures (Checks.Remembers docs.registry (Checks.MadeOf docs.registry fun _ => True)) R x) :
    Act.Ensures (Current docs) R (onChecks x) :=
  hx.zoom (fun _ h => h.checks) fun _ _ h hchecks => ⟨h.graph, h.resources, h.policies, hchecks⟩

/-! ### Requests -/

theorem ensures_resolve (ref : ResourceRef) :
    Act.Ensures (Current docs) (· = docs.resource ref) (resolve ref) := by
  refine ⟨fun engine h => ?_, fun engine h => ?_⟩
  · rwa [resolve_state]
  · cases ref with
    | given resource => rfl
    | byId id => rw [resolve_byId, h.resources, Documents.resource]

theorem ensures_relevance (resource : Resource) :
    Act.Ensures (Graph.Current docs.entities) (· = docs.relevance resource)
      (Graph.relevance resource) := by
  rw [Graph.relevance, Documents.relevance]
  cases resource.owner with
  | none => exact Act.ensures_pure rfl
  | some owner =>
    refine (Graph.ensures_ancestors owner true).bind (fun e he => ?_) fun closure hclosure => ?_
    · simp only [← he, Except.map]
    · refine Act.ensures_pure ?_
      simp only [← hclosure, Except.map]

theorem ensures_candidates (resource : Resource) :
    Act.Ensures (Current docs) (· = docs.candidates resource) (candidates resource) := by
  rw [candidates, Documents.candidates]
  refine (ensures_onGraph (ensures_relevance resource)).bind (fun e he => ?_)
    fun relevance hrelevance => Act.Ensures.record _ ?_
  · rw [← he]
    rfl
  · refine Act.ensures_get.bind_gives fun engine hengine => Act.Ensures.record _ (Act.ensures_pure ?_)
    rw [← hrelevance, hengine.policies]
    rfl

/-- **A request comes to what the documents say**, if no leaf fails, and leaves what the engine
remembers up to date. -/
theorem ensures_check (hlawful : docs.registry.Lawful) (request : Request) (compounder : Compounder) :
    Act.Ensures (Current docs)
      (fun r => Fair docs.registry docs.entities request.requester →
        Agrees docs.registry.Refuses r (docs.decide request compounder))
      (check request compounder) := by
  rw [check]
  refine (ensures_resolve request.resource).bind (fun e he _ => ?_) fun resource hresource => ?_
  · rw [Documents.decide, ← he]
    exact .same _
  · refine Act.Ensures.record _ ((ensures_candidates resource).bind (fun e he _ => ?_)
      fun policies hpolicies => ?_)
    · rw [Documents.decide, ← hresource]
      simp only [bind, Except.bind, ← he]
      exact .same _
    · let context : Context := ⟨request.requester, request.access, resource.id⟩
      have hread : docs.decide request compounder =
          compounder.settleFrom (Policy.outcome docs.registry docs.entities context) policies []
            policies := by
        rw [Documents.decide, ← hresource]
        simp only [bind, Except.bind, ← hpolicies, context]
      have hreact : ∀ policy : Policy, Act.Ensures
          (Evaluation.Current docs.registry docs.entities context.requester)
          (fun r => Fair docs.registry docs.entities context.requester →
            Agrees docs.registry.Refuses r (policy.outcome docs.registry docs.entities context))
          (policy.react context) := Policy.ensures_react hlawful
      have hdecide : Act.Ensures (Evaluation.Current docs.registry docs.entities context.requester) _
        (compounder.decide context policies) := compounder.ensures_decideFrom policies hreact []
      rw [hread]
      -- The decision runs on the checks and the graph of the engine, with no requester kept yet.
      exact hdecide.zoom (fun _ h => ⟨h.checks, Inquiry.current_unasked h.graph⟩) fun _ _ h hs =>
        ⟨hs.inquiry.graph, h.resources, h.policies, hs.checks⟩

/-! ### Operations -/

/-- What an operation writes. -/
def Operation.write (docs : Documents) : Operation → Documents
  | .createEntity fresh parents =>
    { docs with entities := docs.entities.upsert { id := fresh, parents } }
  | .upsertEntity entity => { docs with entities := docs.entities.upsert entity }
  | .addParent target parent =>
    { docs with entities := (docs.entities.find? target).elim docs.entities fun entity =>
        docs.entities.upsert (entity.addParent parent) }
  | .upsertResource resource => { docs with resources := docs.resources.upsert resource }
  | .deleteResource id => { docs with resources := docs.resources.erase id }
  | .upsertPolicy policy => { docs with policies := docs.policies.upsert policy }
  | .deletePolicy id => { docs with policies := docs.policies.erase id }
  | .addEntityOps batch =>
    { docs with registry :=
        { docs.registry with entityOps := (Operators.extend batch docs.registry.entityOps).state } }
  | .addContextOps batch =>
    { docs with registry :=
        { docs.registry with contextOps := (Operators.extend batch docs.registry.contextOps).state } }
  | .ancestors _ _ | .compileCheck _ | .check _ _ => docs

/-- A new entity has an identifier that is not in use, and a batch of operators succeeds. -/
def Operation.Orderly (engine : Engine) : Operation → Prop
  | .createEntity fresh _ => ¬engine.graph.entities.Stored fresh
  | .addEntityOps batch => (Engine.addEntityOps batch engine).result = .ok ()
  | .addContextOps batch => (Engine.addContextOps batch engine).result = .ok ()
  | _ => True

/-- Every operation of the run is orderly when it is performed. -/
def Orderly (engine : Engine) : List Operation → Prop
  | [] => True
  | operation :: operations => operation.Orderly engine ∧ Orderly (operation.perform engine) operations

theorem result_addEntityOps (batch : List (String × Factory Entity)) (engine : Engine) :
    (addEntityOps batch engine).result =
      (Operators.extend batch engine.checks.registry.entityOps).result :=
  Checks.result_invalidate (Checks.registerEntityOps batch) engine.checks

theorem result_addContextOps (batch : List (String × Factory Context)) (engine : Engine) :
    (addContextOps batch engine).result =
      (Operators.extend batch engine.checks.registry.contextOps).result :=
  Checks.result_invalidate (Checks.registerContextOps batch) engine.checks

/-- Whether an operation is orderly is the same for engines that hold the same. -/
theorem Current.orderly {engine' : Engine} (h : engine.Current docs) (h' : engine'.Current docs)
    {operation : Operation} (horderly : operation.Orderly engine) : operation.Orderly engine' := by
  cases operation with
  | createEntity fresh parents =>
    rw [Operation.Orderly, h.graph.entities_eq] at horderly
    rwa [Operation.Orderly, h'.graph.entities_eq]
  | addEntityOps batch =>
    rw [Operation.Orderly, result_addEntityOps, h.checks.registry_eq] at horderly
    rwa [Operation.Orderly, result_addEntityOps, h'.checks.registry_eq]
  | addContextOps batch =>
    rw [Operation.Orderly, result_addContextOps, h.checks.registry_eq] at horderly
    rwa [Operation.Orderly, result_addContextOps, h'.checks.registry_eq]
  | _ => trivial

/-- No operation registers a reserved name. -/
theorem Operation.lawful_write (h : docs.registry.Lawful) (operation : Operation) :
    (operation.write docs).registry.Lawful := by
  cases operation with
  | addEntityOps batch =>
    exact ⟨(Operators.extend_reserved batch _).trans h.entityNames, h.contextNames,
      h.entityOps.extend batch, h.contextOps⟩
  | addContextOps batch =>
    exact ⟨h.entityNames, (Operators.extend_reserved batch _).trans h.contextNames, h.entityOps,
      h.contextOps.extend batch⟩
  | _ => exact h

/-- **One operation.** What an engine remembers is up to date after it, too. -/
theorem Current.perform (h : engine.Current docs) (hlawful : docs.registry.Lawful)
    {operation : Operation} (horderly : operation.Orderly engine) :
    (operation.perform engine).Current (operation.write docs) := by
  cases operation with
  | createEntity fresh parents =>
    rw [Operation.Orderly, h.graph.entities_eq] at horderly
    exact ⟨h.graph.put horderly, h.resources, h.policies, h.checks⟩
  | upsertEntity entity =>
    refine ⟨?_, h.resources, h.policies, h.checks⟩
    rw [Operation.write, ← h.graph.entities_eq]
    exact Graph.current_clear _ engine.graph.memo
  | addParent target parent =>
    exact ⟨h.graph.addParent target parent, h.resources, h.policies, h.checks⟩
  | upsertResource resource =>
    exact ⟨h.graph, congrArg (Table.upsert · resource) h.resources, h.policies, h.checks⟩
  | deleteResource id =>
    exact ⟨h.graph, congrArg (Table.erase · id) h.resources, h.policies, h.checks⟩
  | upsertPolicy policy =>
    refine ⟨h.graph, h.resources, congrArg (Table.upsert · policy) h.policies, ?_⟩
    exact h.checks.invalidate
  | deletePolicy id =>
    refine ⟨h.graph, h.resources, congrArg (Table.erase · id) h.policies, ?_⟩
    exact h.checks.invalidate
  | addEntityOps batch =>
    refine ⟨h.graph, h.resources, h.policies, ?_⟩
    rw [Operation.Orderly, result_addEntityOps] at horderly
    rw [Operation.write, ← h.checks.registry_eq]
    exact Checks.remembers_addEntityOps horderly
  | addContextOps batch =>
    refine ⟨h.graph, h.resources, h.policies, ?_⟩
    rw [Operation.Orderly, result_addContextOps] at horderly
    rw [Operation.write, ← h.checks.registry_eq]
    exact Checks.remembers_addContextOps horderly
  | ancestors id includeSelf => exact (ensures_onGraph (Graph.ensures_ancestors id includeSelf)).keeps engine h
  | compileCheck tree => exact (ensures_onChecks (Checks.ensures_compile_madeOf trivial)).keeps engine h
  | check request compounder => exact (ensures_check hlawful request compounder).keeps engine h

/-- **A run.** Two engines that hold the same hold the same after it, if it is orderly for one. -/
theorem Current.run {engine' : Engine} (h : engine.Current docs) (h' : engine'.Current docs)
    (hlawful : docs.registry.Lawful) {operations : List Operation} (horderly : engine.Orderly operations) :
    ∃ docs', docs'.registry.Lawful ∧ (engine.run operations).Current docs' ∧
      (engine'.run operations).Current docs' := by
  induction operations generalizing engine engine' docs with
  | nil => exact ⟨docs, hlawful, h, h'⟩
  | cons operation operations ih =>
    obtain ⟨hfirst, hrest⟩ := horderly
    exact ih (h.perform hlawful hfirst) (h'.perform hlawful (h.orderly h' hfirst))
      (operation.lawful_write hlawful) hrest

/-! ### Decisions in lockstep -/

/-- No key is refused for lack of a decision, if no operator claims that there is none. -/
theorem not_refuses_noDecision {registry : Registry} (h : registry.NeverUndecided) :
    ¬registry.Refuses .noDecision := by
  rintro (⟨name, hname⟩ | ⟨key, hkey⟩)
  · cases hname
  · exact Registry.fault?_ne_noDecision h key hkey

/-- Two requests come to the same verdict, or both to no decision, or both fail otherwise. -/
inductive Concur : Except Error Bool → Except Error Bool → Prop
  | verdict (verdict : Bool) : Concur (.ok verdict) (.ok verdict)
  | undecided : Concur (.error .noDecision) (.error .noDecision)
  | failed {e e' : Error} (h : e ≠ .noDecision) (h' : e' ≠ .noDecision) : Concur (.error e) (.error e')

theorem concur_same (r : Except Error Bool) : Concur r r := by
  cases r with
  | ok verdict => exact .verdict verdict
  | error e =>
    by_cases he : e = .noDecision
    · rw [he]
      exact .undecided
    · exact .failed he he

/-- What fails otherwise does not concur with what comes to no decision. -/
theorem not_concur_noDecision {e : Error} (h : e ≠ .noDecision) :
    ¬Concur (.error e) (.error .noDecision) := by
  intro hconcur
  cases hconcur with
  | undecided => exact h rfl
  | failed _ h' => exact h' rfl

/-- Results that agree concur, if those failures in which they may differ do not include that there is
no decision. -/
theorem concur_of_agrees {Q : Error → Prop} {r r' : Except Error Bool} (h : Agrees Q r r')
    (hdecided : ¬Q .noDecision) : Concur r r' := by
  have hne : ∀ {e : Error}, Q e → e ≠ .noDecision := by
    rintro e he rfl
    exact hdecided he
  cases h with
  | same => exact concur_same r
  | failed he he' => exact .failed (hne he) (hne he')

/-- **What an engine remembers makes no difference to what it decides.** Let two engines, of any
configurations, start from the same documents and operators and perform the same orderly operations.
On any request for which no leaf fails they come to the same result, or both fail, each with a name that
is not registered or with an error that a factory has for some value.

So they come to the same verdict, or both to no decision, or both fail otherwise, if no factory refuses a
value by claiming that there is no decision. -/
theorem check_lockstep {store : Store} {registry : Registry} (hlawful : registry.Lawful)
    {config config' : Config} {operations : List Operation}
    (horderly : (new store config registry).Orderly operations) (request : Request)
    (compounder : Compounder) :
    let engine := (new store config registry).run operations
    let engine' := (new store config' registry).run operations
    Fair engine.checks.registry engine.graph.entities request.requester →
      Agrees engine.checks.registry.Refuses (check request compounder engine).result
        (check request compounder engine').result ∧
      (¬engine.checks.registry.Refuses .noDecision →
        Concur (check request compounder engine).result (check request compounder engine').result) := by
  intro engine engine' hfair
  obtain ⟨docs, hlawful', hcurrent, hcurrent'⟩ : ∃ docs : Documents, docs.registry.Lawful ∧
      engine.Current docs ∧ engine'.Current docs :=
    (current_new store config registry).run (current_new store config' registry) hlawful horderly
  rw [hcurrent.checks.registry_eq, hcurrent.graph.entities_eq] at hfair
  rw [hcurrent.checks.registry_eq]
  have hcheck : Act.Ensures (Current docs) _ (check request compounder) :=
    ensures_check hlawful' request compounder
  -- Both agree with what the documents say.
  have hagrees := (hcheck.result engine hcurrent hfair).trans (hcheck.result engine' hcurrent' hfair).symm
  exact ⟨hagrees, concur_of_agrees hagrees⟩

/-- One engine has kept the predicate of a tree that is written alike, the other makes it anew. -/
theorem check_lockstep_reordered :
    let holds : Factory Context := fun _ => .ok fun _ => .ok true
    let calm : Policy :=
      { id := ⟨⟨2⟩⟩, selector := some .wildcard,
        contents := [⟨[.access (.one "read"), .custom "calm" .null], some true⟩] }
    let operations : List Operation :=
      [.createEntity ⟨⟨1⟩⟩ .empty, .addContextOps [("calm", holds)], .upsertPolicy calm,
        .compileCheck [.custom "calm" .null, .access (.one "read")]]
    let request : Request := ⟨⟨⟨1⟩⟩, .one "read", .given { id := ⟨⟨3⟩⟩ }⟩
    let engine := (new {} { cache := { enabled := true } } {}).run operations
    let engine' := (new {} {} {}).run operations
    Registry.Lawful {} ∧ (new {} { cache := { enabled := true } } {}).Orderly operations ∧
      Fair engine.checks.registry engine.graph.entities request.requester ∧
      ¬engine.checks.registry.Refuses .noDecision ∧
      Concur (check request .denyOverrides engine).result
        (check request .denyOverrides engine').result := by
  intro holds calm operations request engine engine'
  have horderly : (new {} { cache := { enabled := true } } {}).Orderly operations := by
    refine ⟨?_, rfl, trivial, trivial, trivial⟩
    rintro ⟨e, he⟩
    cases he
  have honly : ∀ name factory, engine.checks.registry.contextOps.find? name = some factory →
      factory = holds :=
    Operators.forall_of_entries (List.forall_mem_singleton.2 rfl)
  have hfair : Fair engine.checks.registry engine.graph.entities request.requester := by
    refine ⟨Table.stored_of_parent (by decide), ⟨{ id := ⟨⟨1⟩⟩, parents := .empty }, rfl⟩, ?_, ?_⟩
    · intro name factory arg test hfind
      cases hfind
    · intro name factory arg test hfind hmade subject
      rw [honly name factory hfind] at hmade
      cases hmade
      exact ⟨true, rfl⟩
  have hdecided : ¬engine.checks.registry.Refuses .noDecision := by
    refine not_refuses_noDecision ⟨Registry.neverUndecided_empty.entityOps, ?_⟩
    intro name factory hfind arg
    rw [honly name factory hfind]
    refine ⟨by simp [holds], ?_⟩
    rintro test ⟨⟩ subject
    simp
  obtain ⟨-, hconcur⟩ := check_lockstep Registry.lawful_empty horderly request .denyOverrides hfair
  exact ⟨Registry.lawful_empty, horderly, hfair, hdecided, hconcur hdecided⟩

/-- The last assumption is needed. An engine that remembers predicates refuses a tree with a shadowed key
before it runs any factory, the other runs a factory first, which claims that there is no decision. -/
theorem check_lockstep_undecided :
    let silent : Factory Context := fun _ => .error .noDecision
    let policy : Policy :=
      { id := ⟨⟨2⟩⟩, selector := some .wildcard,
        contents := [⟨[.custom "silent" .null, .custom "access" .null], some true⟩] }
    let operations : List Operation :=
      [.createEntity ⟨⟨1⟩⟩ .empty, .addContextOps [("silent", silent)], .upsertPolicy policy]
    let request : Request := ⟨⟨⟨1⟩⟩, .one "read", .given { id := ⟨⟨3⟩⟩ }⟩
    let engine := (new {} { cache := { enabled := true } } {}).run operations
    let engine' := (new {} {} {}).run operations
    (Registry.Lawful {} ∧ (new {} { cache := { enabled := true } } {}).Orderly operations ∧
      Fair engine.checks.registry engine.graph.entities request.requester) ∧
    (check request .denyOverrides engine).result = .error (.unknownOperator "access") ∧
    (check request .denyOverrides engine').result = .error .noDecision ∧
    ¬Concur (check request .denyOverrides engine).result
      (check request .denyOverrides engine').result := by
  intro silent policy operations request engine engine'
  have horderly : (new {} { cache := { enabled := true } } {}).Orderly operations := by
    refine ⟨?_, rfl, trivial, trivial⟩
    rintro ⟨e, he⟩
    cases he
  have honly : ∀ name factory, engine.checks.registry.contextOps.find? name = some factory →
      factory = silent :=
    Operators.forall_of_entries (List.forall_mem_singleton.2 rfl)
  have hfair : Fair engine.checks.registry engine.graph.entities request.requester := by
    refine ⟨Table.stored_of_parent (by decide), ⟨{ id := ⟨⟨1⟩⟩, parents := .empty }, rfl⟩, ?_, ?_⟩
    · intro name factory arg test hfind
      cases hfind
    · intro name factory arg test hfind hmade
      rw [honly name factory hfind] at hmade
      cases hmade
  have hfinds : engine.Finds request { id := ⟨⟨3⟩⟩ } [policy] := by
    refine ⟨rfl, ?_⟩
    show Except.ok (Policy.byPriority (Policy.byPriority [policy])) = _
    simp only [Policy.byPriority_singleton]
  have hfinds' : engine'.Finds request { id := ⟨⟨3⟩⟩ } [policy] := by
    refine ⟨rfl, ?_⟩
    show Except.ok (Policy.byPriority (Policy.byPriority [policy])) = _
    simp only [Policy.byPriority_singleton]
  have hresult : (check request .denyOverrides engine).result = .error (.unknownOperator "access") :=
    (check_of_finds hfinds .denyOverrides).1.trans rfl
  have hresult' : (check request .denyOverrides engine').result = .error .noDecision :=
    (check_of_finds hfinds' .denyOverrides).1.trans rfl
  refine ⟨⟨Registry.lawful_empty, horderly, hfair⟩, hresult, hresult', ?_⟩
  rw [hresult, hresult']
  exact not_concur_noDecision (by simp)

end Engine
end PolicyDecision
