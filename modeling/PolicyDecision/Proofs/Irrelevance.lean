import PolicyDecision.Proofs.Run

/-!
# What a decision does not look at

A decision on a request looks at the resource, at the policies that the resource calls for, and at the
entities that its requester and the owner of its resource lead to. Two engines without memos that agree
on these decide alike, under every compounder (`Engine.AlikeFor.check_eq`). So a decision does not
notice what is written elsewhere (`Engine.check_unaffected`): policies that are not relevant, other
resources, and entities to which neither the requester nor the owner leads.

What carries this is that a walk asks for nothing but what its root leads to (`Walk.visit_congr`).
-/

namespace PolicyDecision

/-! ### What is within reach -/

namespace Table

/-- `x` leads to `y`: they are the same, or one edge or several lead from `x` to `y`. -/
def Leads (entities : Table Entity) : EntityId → EntityId → Prop :=
  Relation.ReflTransGen entities.Parent

/-- The two tables have the same entities wherever `x` leads, and miss the same. -/
def SameFrom (entities entities' : Table Entity) (x : EntityId) : Prop :=
  ∀ y, entities.Leads x y → entities'.find? y = entities.find? y

variable {entities entities' : Table Entity} {x : EntityId}

theorem leads_iff {y : EntityId} : entities.Leads x y ↔ y = x ∨ entities.Ancestor x y :=
  Relation.reflTransGen_iff_eq_or_transGen

theorem sameFrom_refl (entities : Table Entity) (x : EntityId) : entities.SameFrom entities x :=
  fun _ _ => rfl

theorem SameFrom.self (h : entities.SameFrom entities' x) : entities'.find? x = entities.find? x :=
  h x .refl

/-- An entity that is out of reach may be put into the table. -/
theorem sameFrom_upsert {e : Entity} (h : ¬entities.Leads x e.id) :
    entities.SameFrom (entities.upsert e) x := by
  intro y hy
  apply find?_upsert_of_ne
  rintro rfl
  exact h hy

end Table

/-! ### Walks -/

namespace Walk

variable {entities entities' : Table Entity} {root : Entity} {P : EntityId → Prop}
  {visited : IdSet .entity} {pending : List EntityId}

/-- **A walk asks for nothing but what its root leads to**: it is the same over two tables that agree
on whatever holds of all that was visited or waits and is handed down along edges. -/
theorem visit_congr (hstep : ∀ x y, P x → (entities.upsert root).Parent x y → P y)
    (hsame : ∀ x, P x → entities'.find? x = entities.find? x)
    (h : ∀ x, x ∈ visited ∨ x ∈ pending → P x) :
    visit entities' root.id visited pending = visit entities root.id visited pending := by
  induction visited, pending using visit.induct entities root.id with
  | case1 visited => rw [visit_nil, visit_nil]
  | case2 visited current pending hseen ih =>
    rw [visit_seen hseen, visit_seen hseen]
    exact ih fun x hx => h x (hx.imp_right (List.mem_cons_of_mem current))
  | case3 visited pending hseen visited' ih =>
    rw [visit_root hseen, visit_root hseen]
    exact ih (within_insert h)
  | case4 visited current pending hseen hroot hfind =>
    have hfind' := (hsame current (h current (.inr List.mem_cons_self))).trans hfind
    rw [visit_missing hseen hroot hfind, visit_missing hseen hroot hfind']
  | case5 visited current pending hseen visited' hroot node hfind ih =>
    have hfind' := (hsame current (h current (.inr List.mem_cons_self))).trans hfind
    rw [visit_found hseen hroot hfind, visit_found hseen hroot hfind']
    rw [ih (within_found hstep h hroot hfind)]

/-- The walk from a stored entity. -/
theorem ofEntity_congr (hstored : entities.find? root.id = some root)
    (hsame : entities.SameFrom entities' root.id) (includeSelf : Bool) :
    ofEntity entities' root includeSelf = ofEntity entities root includeSelf := by
  have hroot : entities.upsert root = entities := Table.upsert_of_find? hstored
  rw [ofEntity, ofEntity]
  apply visit_congr (P := entities.Leads root.id)
  · intro x y hx hxy
    rw [hroot] at hxy
    exact hx.tail hxy
  · exact hsame
  · rintro x (hx | hx)
    · rw [(mem_start.1 hx).2]
      exact .refl
    · exact .single ⟨root, hstored, hx⟩

end Walk

/-! ### Asking the graph -/

section Tables

variable {entities entities' : Table Entity}

namespace Graph

theorem ancestors_congr {x : EntityId} (hsame : entities.SameFrom entities' x) (includeSelf : Bool) :
    (ancestors x includeSelf ⟨entities', none⟩).result =
      (ancestors x includeSelf ⟨entities, none⟩).result := by
  rw [(ancestors_memoless entities' includeSelf x).1, (ancestors_memoless entities includeSelf x).1,
    hsame.self]
  cases hfind : entities.find? x with
  | none => rfl
  | some entity =>
    obtain rfl : entity.id = x := Table.idOf_of_find? hfind
    simp only [Option.elim_some, Walk.ofEntity_congr hfind hsame includeSelf]

theorem relevance_congr {resource : Resource}
    (hsame : ∀ owner, resource.owner = some owner → entities.SameFrom entities' owner) :
    (relevance resource ⟨entities', none⟩).result = (relevance resource ⟨entities, none⟩).result := by
  cases howner : resource.owner with
  | none => simp [relevance, howner]
  | some owner =>
    simp only [relevance, howner, Act.bind_apply, ancestors_congr (hsame owner howner)]
    cases (ancestors owner true ⟨entities, none⟩).result with
    | error e => rfl
    | ok closure => rfl

/-- The graph remembers nothing and is over one of the two tables. -/
def Either (entities entities' : Table Entity) (graph : Graph) : Prop :=
  graph = ⟨entities, none⟩ ∨ graph = ⟨entities', none⟩

theorem steady_isSubOf_of_sameFrom {entity : Entity}
    (hstored : entities.find? entity.id = some entity)
    (hsame : entities.SameFrom entities' entity.id) (target : EntityId) :
    Act.Steady (Either entities entities') (isSubOf entity target) := by
  have hancestors : Act.Steady (Either entities entities') (ancestorsOf entity false) := by
    refine ⟨(Walk.ofEntity entities entity false).result.mapError .notFound, ?_⟩
    rintro graph (rfl | rfl)
    · obtain ⟨hresult, hstate⟩ := ancestorsOf_memoless entities false entity
      exact ⟨hresult, .inl hstate⟩
    · obtain ⟨hresult, hstate⟩ := ancestorsOf_memoless entities' false entity
      rw [Walk.ofEntity_congr hstored hsame] at hresult
      exact ⟨hresult, .inr hstate⟩
  rw [isSubOf]
  split
  · exact Act.steady_pure true
  · exact hancestors.bind fun closure => Act.steady_pure _

end Graph

/-! ### Evaluating -/

/-- The inquiry is about a graph over one of the two tables, and the requester it has kept, if any, is
the stored one. -/
structure Inquiry.Either (entities entities' : Table Entity) (requester : EntityId)
    (inquiry : Inquiry) : Prop where
  graph : inquiry.graph.Either entities entities'
  kept : ∀ e, inquiry.requester = some e → entities.find? requester = some e

variable {context : Context}

theorem Inquiry.ensures_fetchRequester_of_sameFrom {requester : EntityId}
    (hsame : entities.SameFrom entities' requester) :
    Act.Ensures (Inquiry.Either entities entities' requester)
      (· = (entities.find? requester).elim (.error (.notFound requester)) .ok)
      (fetchRequester requester) := by
  apply Act.ensures_of
  intro s hs
  have hfind : s.graph.entities.find? requester = entities.find? requester := by
    rcases hs.graph with hgraph | hgraph
    · rw [hgraph]
    · rw [hgraph, hsame.self]
  obtain ⟨hresult, hstate⟩ := fetchRequester_of_kept (hfind ▸ hs.kept)
  rw [hresult, hstate, hfind]
  exact ⟨⟨hs.graph, fun _ he => he⟩, rfl⟩

/-- **Evaluating a predicate does not notice over which of the two tables it is evaluated.** -/
theorem ContextPredicate.steady_of_sameFrom (hsame : entities.SameFrom entities' context.requester)
    (p : ContextPredicate) :
    Act.Steady (Inquiry.Either entities entities' context.requester) (p.eval context) := by
  refine Predicate.compositional_run Act.compositional_steady (ContextTest.steady_eval ?_) p
  intro accepted
  refine (Inquiry.ensures_fetchRequester_of_sameFrom hsame).bind_steady fun requester hrequester => ?_
  cases hfind : entities.find? context.requester with
  | none =>
    rw [hfind] at hrequester
    cases hrequester
  | some stored =>
    rw [hfind] at hrequester
    cases hrequester
    have hid : requester.id = context.requester := Table.idOf_of_find? hfind
    have haccepted : Act.Steady (Graph.Either entities entities') (accepted.eval requester) := by
      apply EntityPredicate.steady_eval
      apply Graph.steady_isSubOf_of_sameFrom
      · rwa [hid]
      · rwa [hid]
    exact haccepted.zoom (fun _ h => h.graph) fun _ _ h hgraph => ⟨hgraph, h.kept⟩

end Tables

/-! ### Reactions -/

/-- With the same checks, a policy reacts alike where scanning comes to the same. -/
theorem Policy.react_congr (policy : Policy) {context : Context} {s t : Evaluation}
    (hchecks : t.checks = s.checks)
    (hscan : ∀ made, (Content.scan context false made t.inquiry).result =
      (Content.scan context false made s.inquiry).result) :
    (policy.react context t).result = (policy.react context s).result := by
  have hmade : (Evaluation.onChecks (policy.contents.mapM Content.compile) t).result =
      (Evaluation.onChecks (policy.contents.mapM Content.compile) s).result := by
    rw [Evaluation.onChecks, Act.zoom_apply, Act.zoom_apply, hchecks]
  rw [react]
  cases hresult : (Evaluation.onChecks (policy.contents.mapM Content.compile) s).result with
  | error e => rw [Act.bind_error hresult, Act.bind_error (hmade.trans hresult)]
  | ok made =>
    rw [Act.bind_ok hresult, Act.bind_ok (hmade.trans hresult)]
    exact hscan made

namespace Engine

variable {engine engine' : Engine} {request : Request}

/-- **A reaction does not notice what the requester does not lead to.** -/
theorem reaction_congr (h : engine.Memoless) (h' : engine'.Memoless)
    (hchecks : engine'.checks = engine.checks) {context : Context}
    (hsame : engine.graph.entities.SameFrom engine'.graph.entities context.requester)
    (policy : Policy) : engine'.reaction context policy = engine.reaction context policy := by
  apply policy.react_congr hchecks
  intro made
  have hscan : Act.Steady
      (Inquiry.Either engine.graph.entities engine'.graph.entities context.requester)
      (Content.scan context false made) :=
    Content.steady_scan (ContextPredicate.steady_of_sameFrom hsame) false made
  exact hscan.result_eq ⟨.inr h'.graph_eq, nofun⟩ ⟨.inl h.graph_eq, nofun⟩

/-! ### Decisions -/

/-- The resource that a request is about, if it is found. -/
def Concerns (engine : Engine) (request : Request) (resource : Resource) : Prop :=
  (resolve request.resource engine).result = .ok resource

/-- Engines that remember nothing and agree on all that a decision on the request looks at. -/
structure AlikeFor (request : Request) (engine engine' : Engine) : Prop where
  memoless : engine.Memoless
  memoless' : engine'.Memoless
  checks : engine'.checks = engine.checks
  resource : (resolve request.resource engine').result = (resolve request.resource engine).result
  requester : engine.graph.entities.SameFrom engine'.graph.entities request.requester
  owner : ∀ resource owner, engine.Concerns request resource → resource.owner = some owner →
    engine.graph.entities.SameFrom engine'.graph.entities owner
  /-- However the relevant policies are recognised, the same ones are found. -/
  policies : ∀ resource accepts, engine.Concerns request resource →
    resource.OwnerResolves engine.graph.entities →
    (∀ p, accepts p = true ↔ p.Relevant engine.graph.entities resource) →
    engine'.policies.docs.filter accepts = engine.policies.docs.filter accepts

namespace AlikeFor

variable (h : AlikeFor request engine engine')
include h

/-- The same policies are asked, or the same is missing. -/
theorem candidates_eq {resource : Resource} (hresource : engine.Concerns request resource) :
    (candidates resource engine').result = (candidates resource engine).result := by
  have howner : ∀ owner, resource.owner = some owner →
      engine.graph.entities.SameFrom engine'.graph.entities owner :=
    fun owner => h.owner resource owner hresource
  rw [(candidates_memoless h.memoless' resource).1, (candidates_memoless h.memoless resource).1,
    Graph.relevance_congr howner]
  by_cases hresolves : resource.OwnerResolves engine.graph.entities
  · obtain ⟨closure, hclosure, hrelevance⟩ := Graph.relevance_found hresolves
    have hfound := h.policies resource _ hresource hresolves (Relevance.accepts_iff hclosure)
    simp only [hrelevance, Except.map, Relevance.candidates, hfound]
  · obtain ⟨owner, y, -, -, -, hrelevance⟩ := Graph.relevance_missing hresolves
    simp only [hrelevance, Except.map]

theorem asked_eq : engine'.asked request = engine.asked request := by
  rw [asked, asked, h.resource]
  cases hresource : (resolve request.resource engine).result with
  | error e => rfl
  | ok resource => simp only [bind, Except.bind, h.candidates_eq hresource]

/-- **Engines that agree on what a decision looks at decide alike.** -/
theorem check_eq (compounder : Compounder) :
    (check request compounder engine').result = (check request compounder engine).result := by
  have hreaction : ∀ resource : ResourceId,
      engine'.reaction ⟨request.requester, request.access, resource⟩ =
        engine.reaction ⟨request.requester, request.access, resource⟩ := by
    intro resource
    funext policy
    exact reaction_congr h.memoless h.memoless' h.checks h.requester policy
  rw [check_eq_settle h.memoless', check_eq_settle h.memoless, h.asked_eq]
  simp only [hreaction]

end AlikeFor

/-! ### Writing elsewhere -/

/-- The resource of the request calls for the policy. Nothing is asked about a resource whose owner does
not resolve. -/
def CallsFor (engine : Engine) (request : Request) (policy : Policy) : Prop :=
  ∃ resource, engine.Concerns request resource ∧ resource.OwnerResolves engine.graph.entities ∧
    policy.Relevant engine.graph.entities resource

/-- Neither the requester leads to the identifier nor the owner of the resource. It need not be
stored. -/
structure OutOfSight (engine : Engine) (request : Request) (id : EntityId) : Prop where
  requester : ¬engine.graph.entities.Leads request.requester id
  owner : ∀ resource owner, engine.Concerns request resource → resource.owner = some owner →
    ¬engine.graph.entities.Leads owner id

/-- The operation writes what a decision on the request does not look at: a policy that is not
relevant, before or after; another resource; or an entity that is out of sight. -/
def Operation.Irrelevant (engine : Engine) (request : Request) : Operation → Prop
  | .upsertPolicy policy => ¬engine.CallsFor request policy ∧
      ∀ old, engine.policies.find? policy.id = some old → ¬engine.CallsFor request old
  | .deletePolicy id =>
      ∀ old, engine.policies.find? id = some old → ¬engine.CallsFor request old
  | .upsertResource resource => request.resource ≠ .byId resource.id
  | .deleteResource id => request.resource ≠ .byId id
  | .createEntity fresh _ => engine.OutOfSight request fresh
  | .upsertEntity entity => engine.OutOfSight request entity.id
  | _ => False

/-- Each of the operations is irrelevant when its turn comes. -/
def AllIrrelevant (request : Request) (engine : Engine) : List Operation → Prop
  | [] => True
  | operation :: rest =>
    operation.Irrelevant engine request ∧ AllIrrelevant request (operation.perform engine) rest

section Elsewhere

variable (h : engine.Memoless)
include h

theorem alikeFor_entities {entity : Entity} (hunseen : engine.OutOfSight request entity.id) :
    AlikeFor request engine
      { engine with graph := ⟨engine.graph.entities.upsert entity, none⟩ } where
  memoless := h
  memoless' := ⟨rfl, h.checks⟩
  checks := rfl
  resource := resolve_congr fun _ _ => rfl
  requester := Table.sameFrom_upsert hunseen.requester
  owner resource owner hresource howner :=
    Table.sameFrom_upsert (hunseen.owner resource owner hresource howner)
  policies _ _ _ _ _ := rfl

theorem alikeFor_resources {resources : Table Resource}
    (hsame : ∀ id, request.resource = .byId id → resources.find? id = engine.resources.find? id) :
    AlikeFor request engine { engine with resources } where
  memoless := h
  memoless' := ⟨h.graph, h.checks⟩
  checks := rfl
  resource := resolve_congr hsame
  requester := Table.sameFrom_refl _ _
  owner _ _ _ _ := Table.sameFrom_refl _ _
  policies _ _ _ _ _ := rfl

theorem alikeFor_policies {policies : Table Policy}
    (hsame : ∀ accepts : Policy → Bool, (∀ p, ¬engine.CallsFor request p → accepts p = false) →
      policies.docs.filter accepts = engine.policies.docs.filter accepts) :
    AlikeFor request engine { engine with policies } where
  memoless := h
  memoless' := ⟨h.graph, h.checks⟩
  checks := rfl
  resource := resolve_congr fun _ _ => rfl
  requester := Table.sameFrom_refl _ _
  owner _ _ _ _ := Table.sameFrom_refl _ _
  policies resource accepts hresource hresolves haccepts := by
    apply hsame
    intro p hp
    rw [Bool.eq_false_iff]
    exact fun hrelevant => hp ⟨resource, hresource, hresolves, (haccepts p).1 hrelevant⟩

/-- **An irrelevant operation leaves all that a decision looks at as it is.** -/
theorem Operation.Irrelevant.alikeFor {operation : Operation}
    (hirrelevant : operation.Irrelevant engine request) :
    AlikeFor request engine (operation.perform engine) := by
  obtain ⟨config, ⟨entities, memo⟩, resources, policies, ⟨registry, predicates⟩⟩ := engine
  obtain rfl : memo = none := h.graph
  obtain rfl : predicates = none := h.checks
  cases operation with
  | upsertPolicy policy =>
    obtain ⟨hnew, hold⟩ := hirrelevant
    exact alikeFor_policies h fun accepts hrejects =>
      Table.filter_upsert (hrejects policy hnew) fun old hfind => hrejects old (hold old hfind)
  | deletePolicy id =>
    exact alikeFor_policies h fun accepts hrejects =>
      Table.filter_erase fun old hfind => hrejects old (hirrelevant old hfind)
  | upsertResource resource =>
    refine alikeFor_resources h fun id href => Table.find?_upsert_of_ne ?_
    rintro rfl
    exact hirrelevant href
  | deleteResource id =>
    refine alikeFor_resources h fun other href => Table.find?_erase_of_ne ?_
    rintro rfl
    exact hirrelevant href
  | createEntity fresh parents => exact alikeFor_entities h hirrelevant
  | upsertEntity entity => exact alikeFor_entities h hirrelevant
  | _ => exact hirrelevant.elim

end Elsewhere

/-- **Decisions depend on nothing but what is relevant.** Without memos, let policies be written that are
relevant neither before nor after, other resources, and entities to which neither the requester nor the
owner of the resource leads. Then the request comes to the same afterwards, under every compounder:
the same verdict, or the same error. -/
theorem check_unaffected (h : engine.Memoless) {operations : List Operation}
    (hirrelevant : AllIrrelevant request engine operations) (compounder : Compounder) :
    (check request compounder (engine.run operations)).result =
      (check request compounder engine).result := by
  induction operations generalizing engine with
  | nil => rfl
  | cons operation rest ih =>
    obtain ⟨hfirst, hrest⟩ := hirrelevant
    have halike := hfirst.alikeFor h
    rw [run_cons, ih halike.memoless' hrest, halike.check_eq]

/-- A policy for resources of another type comes, gets another priority and goes; another resource comes;
and someone comes who inherits from the requester. That the group of the requester is not stored makes
no difference. -/
theorem check_unaffected_dangling :
    let me : EntityId := ⟨⟨1⟩⟩
    let group : EntityId := ⟨⟨2⟩⟩
    let allows : Policy :=
      { id := ⟨⟨1⟩⟩, selector := some .wildcard,
        contents := [⟨[.requester (.all [.subOf group])], some true⟩] }
    let strays (priority : Int) : Policy :=
      { id := ⟨⟨2⟩⟩, selector := some (.matching (some "report") none),
        contents := [⟨[], some false⟩], priority }
    let request : Request := ⟨me, .one "read", .byId ⟨⟨4⟩⟩⟩
    let engine := Engine.new
      { entities := .ofList [.withParents me [group]], resources := .ofList [{ id := ⟨⟨4⟩⟩ }],
        policies := .ofList [allows] } {} {}
    let operations : List Operation :=
      [.upsertPolicy (strays 5), .upsertPolicy (strays 9), .deletePolicy ⟨⟨2⟩⟩,
        .upsertResource { id := ⟨⟨5⟩⟩, type := "report" }, .upsertEntity (.withParents ⟨⟨3⟩⟩ [me])]
    engine.Memoless ∧ AllIrrelevant request engine operations ∧
      (check request .denyOverrides (engine.run operations)).result = .ok true := by
  intro me group allows strays request engine operations
  have hmemoless : engine.Memoless := memoless_new rfl
  have hstrays : ∀ (engine' : Engine) priority, engine'.resources = engine.resources →
      ¬engine'.CallsFor request (strays priority) := by
    rintro engine' priority hresources ⟨resource, hresource, -, hrelevant⟩
    rw [Concerns, resolve_byId, hresources] at hresource
    cases hresource
    rcases hrelevant with hbound | ⟨selector, hselector, haccepts⟩
    · cases hbound
    · cases hselector
      exact absurd haccepts.1 (by decide)
  have hleads : ∀ x, engine.graph.entities.Leads me x → x = me ∨ x = group := by
    intro x hx
    induction hx with
    | refl => exact .inl rfl
    | @tail x y _ hparent ih =>
      obtain ⟨e, he, hy⟩ := hparent
      rcases ih with rfl | rfl
      · cases he
        exact .inr (List.mem_singleton.1 hy)
      · cases he
  have hirrelevant : AllIrrelevant request engine operations := by
    refine ⟨⟨hstrays _ _ rfl, ?_⟩, ⟨hstrays _ _ rfl, ?_⟩, ?_, ?_, ⟨?_, ?_⟩, trivial⟩
    · intro old hold
      cases hold
    · intro old hold
      obtain rfl : strays 5 = old := Option.some.inj hold
      exact hstrays _ _ rfl
    · intro old hold
      obtain rfl : strays 9 = old := Option.some.inj hold
      exact hstrays _ _ rfl
    · intro hsame
      exact absurd (ResourceRef.byId.inj hsame) (by decide)
    · intro hseen
      exact absurd (hleads _ hseen) (by decide)
    · intro resource owner hresource howner
      cases hresource
      cases howner
  refine ⟨hmemoless, hirrelevant, ?_⟩
  rw [check_unaffected hmemoless hirrelevant]
  subst operations engine request strays allows group me
  cbv

end Engine
end PolicyDecision
