import PolicyDecision.Proofs.Lockstep

/-!
# Remembered closures along a run

Every closure that an engine remembers is what a walk would find now, after any operations whatever,
as long as a new entity gets an identifier that is not in use (`Engine.current_run`). So asking for
ancestors comes to the same whether closures are remembered or not (`Engine.ancestors_transparent`).

Only three operations write entities. A new entity makes the engine forget nothing, but then no closure
that is remembered reaches it: what has been walked through is stored. The other two make the engine
forget all closures. A request may ask for ancestors too, of the owner of its resource and of its
requester. Both are walked from as they are stored, so a request remembers nothing but current closures
(`ContextPredicate.steady_of_current`).
-/

namespace PolicyDecision

/-! ### Evaluation over a current graph -/

section Evaluation

variable {entities : Table Entity}

/-- **Evaluating a predicate leaves the graph current**, and comes to the same whatever is remembered:
the requester is tested as it is stored, or not at all. -/
theorem ContextPredicate.steady_of_current (context : Context) (p : ContextPredicate) :
    Act.Steady (Inquiry.Current entities context.requester) (p.eval context) := by
  refine Predicate.compositional_run Act.compositional_steady (ContextTest.steady_eval ?_) p
  intro accepted
  refine Inquiry.ensures_fetchRequester.bind_steady fun requester hrequester => ?_
  cases hfind : entities.find? context.requester with
  | none =>
    rw [hfind] at hrequester
    cases hrequester
  | some stored =>
    rw [hfind] at hrequester
    cases hrequester
    have hstored : entities.find? requester.id = some requester := by
      rwa [show requester.id = context.requester from Table.idOf_of_find? hfind]
    have haccepted : Act.Steady (Graph.Current entities) (accepted.eval requester) :=
      EntityPredicate.steady_eval (Graph.steady_isSubOf_of_stored hstored) accepted
    exact haccepted.zoom (fun _ h => h.graph) fun _ _ h hgraph => ⟨hgraph, h.kept⟩

theorem Content.steady_scan_of_current (context : Context)
    (made : List (ContextPredicate × Reaction)) :
    Act.Steady (Inquiry.Current entities context.requester) (Content.scan context false made) :=
  Content.steady_scan (ContextPredicate.steady_of_current context) false made

theorem Policy.keeps_react_of_current (policy : Policy) (context : Context) :
    Act.Keeps (fun evaluation : Evaluation => evaluation.inquiry.Current entities context.requester)
      (policy.react context) := by
  have hcompile : Act.Keeps (fun evaluation : Evaluation =>
      evaluation.inquiry.Current entities context.requester)
      (Evaluation.onChecks (policy.contents.mapM Content.compile)) :=
    ⟨fun _ h => h, fun _ _ => trivial⟩
  refine hcompile.bind fun made => ?_
  exact (Content.steady_scan_of_current context made).keeps.zoom (fun _ h => h) fun _ _ _ h => h

end Evaluation

/-! ### Runs -/

/-- The documents after a sequence of operations. -/
def Documents.after (docs : Documents) (operations : List Engine.Operation) : Documents :=
  operations.foldl Engine.Operation.write docs

namespace Engine

/-- A new entity has an identifier that is not in use. -/
def Operation.New (docs : Documents) : Operation → Prop
  | .createEntity fresh _ => ¬docs.entities.Stored fresh
  | _ => True

/-- Every new entity of the run has an identifier that is not in use when it is created. -/
def CreatesNew (docs : Documents) : List Operation → Prop
  | [] => True
  | operation :: operations => operation.New docs ∧ CreatesNew (operation.write docs) operations

variable {docs : Documents} {engine : Engine}

/-- A request leaves the graph current. -/
theorem keeps_check_of_current (request : Request) (compounder : Compounder) :
    Act.Keeps (fun engine : Engine => engine.graph.Current docs.entities)
      (check request compounder) := by
  apply keeps_check (J := fun context evaluation =>
    evaluation.inquiry.Current docs.entities context.requester)
  · intro resource
    exact keeps_candidates (ensures_relevance resource).forget (fun _ h => h) fun _ _ _ h => h
  · exact Policy.keeps_react_of_current
  · exact fun _ _ h => Inquiry.current_unasked h
  · exact fun _ _ _ _ h => h.graph

/-- **One operation** leaves the graph current, for the entities that it writes. -/
theorem current_perform (h : engine.graph.Current docs.entities) {operation : Operation}
    (hnew : operation.New docs) :
    (operation.perform engine).graph.Current (operation.write docs).entities := by
  cases operation with
  | createEntity fresh parents => exact h.put hnew
  | upsertEntity entity =>
    rw [Operation.write, ← h.entities_eq]
    exact Graph.current_clear _ engine.graph.memo
  | addParent target parent => exact h.addParent target parent
  | ancestors id includeSelf => exact (Graph.ensures_ancestors id includeSelf).keeps engine.graph h
  | check request compounder => exact (keeps_check_of_current request compounder).keeps engine h
  | upsertResource resource => exact h
  | deleteResource id => exact h
  | upsertPolicy policy => exact h
  | deletePolicy id => exact h
  | addEntityOps batch => exact h
  | addContextOps batch => exact h
  | compileCheck tree => exact h

/-- **Every run** leaves the graph current, for the entities that it has written. -/
theorem current_run (h : engine.graph.Current docs.entities) {operations : List Operation}
    (hnew : CreatesNew docs operations) :
    (engine.run operations).graph.Current (docs.after operations).entities := by
  induction operations generalizing engine docs with
  | nil => exact h
  | cons operation operations ih =>
    obtain ⟨hfirst, hrest⟩ := hnew
    exact ih (current_perform h hfirst) hrest

/-- **Whether closures are remembered makes no difference to what asking for ancestors comes to.** Let an
engine of any configuration perform any operations, each new entity under an identifier that is not in
use. Then asking for ancestors comes to what it comes to when nothing is remembered, which is the exact
closure in the entities that the run has written. Engines of other configurations have the same entities
and come to the same. -/
theorem ancestors_transparent {store : Store} {registry : Registry} {operations : List Operation}
    (hnew : CreatesNew ⟨store, registry⟩ operations) (config : Config) (id : EntityId)
    (includeSelf : Bool) :
    let engine := (new store config registry).run operations
    let found := (ancestors id includeSelf engine).result
    found = (Graph.ancestors id includeSelf ⟨engine.graph.entities, none⟩).result ∧
    IsClosure engine.graph.entities id includeSelf found ∧
    ∀ config', let engine' := (new store config' registry).run operations
      engine'.graph.entities = engine.graph.entities ∧
        (ancestors id includeSelf engine').result = found := by
  intro engine found
  have hcurrent : ∀ config,
      ((new store config registry).run operations).graph.Current
        (Documents.after ⟨store, registry⟩ operations).entities :=
    fun config => current_run (Graph.current_new store.entities config.cache) hnew
  have hclosure : ∀ config,
      (ancestors id includeSelf ((new store config registry).run operations)).result =
        (Documents.after ⟨store, registry⟩ operations).entities.closure id includeSelf :=
    fun config => (Graph.ensures_ancestors id includeSelf).result _ (hcurrent config)
  have hfound : found = (Graph.ancestors id includeSelf ⟨engine.graph.entities, none⟩).result := by
    rw [(hcurrent config).entities_eq]
    exact hclosure config
  refine ⟨hfound, ?_, fun config' => ⟨?_, ?_⟩⟩
  · rw [hfound]
    exact Graph.isClosure_ancestors _ includeSelf id
  · rw [(hcurrent config').entities_eq, (hcurrent config).entities_eq]
  · exact (hclosure config').trans (hclosure config).symm

/-- A parent that is stored only later, a cycle, and a walk over an edge to what is not stored. -/
theorem ancestors_transparent_cyclic :
    let operations : List Operation :=
      [.createEntity ⟨⟨1⟩⟩ (.ofList [⟨⟨2⟩⟩]), .ancestors ⟨⟨1⟩⟩ false,
        .createEntity ⟨⟨2⟩⟩ (.ofList [⟨⟨1⟩⟩]), .ancestors ⟨⟨1⟩⟩ false, .addParent ⟨⟨2⟩⟩ ⟨⟨3⟩⟩,
        .ancestors ⟨⟨1⟩⟩ false, .upsertEntity { id := ⟨⟨3⟩⟩, parents := .empty }]
    let engine := (new {} { cache := { enabled := true } } {}).run operations
    CreatesNew ⟨{}, {}⟩ operations ∧
      (ancestors ⟨⟨1⟩⟩ false engine).result =
        (Graph.ancestors ⟨⟨1⟩⟩ false ⟨engine.graph.entities, none⟩).result ∧
      (ancestors ⟨⟨1⟩⟩ false engine).result = .ok (.ofList [⟨⟨1⟩⟩, ⟨⟨2⟩⟩, ⟨⟨3⟩⟩]) := by
  intro operations engine
  have hnew : CreatesNew ⟨{}, {}⟩ operations := by
    refine ⟨?_, trivial, ?_, trivial, trivial, trivial, trivial, trivial⟩
    · rintro ⟨e, he⟩
      cases he
    · rintro ⟨e, he⟩
      cases he
  obtain ⟨hfound, -, hsame⟩ :=
    ancestors_transparent hnew { cache := { enabled := true } } ⟨⟨1⟩⟩ false
  refine ⟨hnew, hfound, (hsame {}).2.symm.trans ?_⟩
  cbv

end Engine
end PolicyDecision
