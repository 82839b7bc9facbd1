import PolicyDecision.Proofs.Memo
import PolicyDecision.Proofs.Memoless

/-!
# Closures that are current

A graph that remembers closures is as good as one that does not, as long as each remembered closure
is what a walk would find now (`Graph.Current`). Then it makes no difference whether an answer is
looked up or found: asking for ancestors comes to the same result, and what it puts into the memo or
moves to its front leaves the graph current.

This is so for stored entities only. An entity at hand may differ from the stored record of its
identifier, and its closure would be remembered under that identifier.
-/

namespace PolicyDecision

/-- What asking for the ancestors of an identifier comes to when nothing is remembered. -/
def Table.closure (entities : Table Entity) (id : EntityId) (includeSelf : Bool) :
    Except Error (IdSet .entity) :=
  (Graph.ancestors id includeSelf ⟨entities, none⟩).result

theorem Table.closure_of_find? {entities : Table Entity} {entity : Entity}
    (h : entities.find? entity.id = some entity) (includeSelf : Bool) :
    entities.closure entity.id includeSelf =
      (Walk.ofEntity entities entity includeSelf).result.mapError .notFound := by
  rw [closure, (Graph.ancestors_memoless entities includeSelf entity.id).1, h]
  rfl

section NewEntity

variable {entities : Table Entity} {entity : Entity}

theorem Table.parent_upsert_of_new (hnew : ¬entities.Stored entity.id) {x y : EntityId}
    (hx : entities.Stored x) : (entities.upsert entity).Parent x y ↔ entities.Parent x y := by
  have hne : x ≠ entity.id := by
    rintro rfl
    exact hnew hx
  rw [Parent, find?_upsert_of_ne hne, Parent]

/-- What resolves does not reach an entity that was not stored. -/
theorem Table.ancestor_upsert_of_new (hnew : ¬entities.Stored entity.id) {x y : EntityId}
    (hx : entities.Resolves x) : (entities.upsert entity).Ancestor x y ↔ entities.Ancestor x y := by
  constructor
  · intro hxy
    induction hxy with
    | single hparent => exact .single ((parent_upsert_of_new hnew hx.1).1 hparent)
    | tail _ hparent ih => exact ih.tail ((parent_upsert_of_new hnew (hx.2 _ ih)).1 hparent)
  · intro hxy
    have hparents : entities.Parent ≤ (entities.upsert entity).Parent := by
      rintro a b ⟨e, he, hb⟩
      exact (parent_upsert_of_new hnew ⟨e, he⟩).2 ⟨e, he, hb⟩
    exact Relation.TransGen.mono hparents x y hxy

/-- A new entity leaves the closures of the others as they are. -/
theorem Table.closure_upsert_of_new (hnew : ¬entities.Stored entity.id) {id : EntityId}
    {includeSelf : Bool} {closure : IdSet .entity} (h : entities.closure id includeSelf = .ok closure) :
    (entities.upsert entity).closure id includeSelf = .ok closure := by
  have hclosure : IsClosure entities id includeSelf (entities.closure id includeSelf) :=
    Graph.isClosure_ancestors entities includeSelf id
  have hclosure' : IsClosure (entities.upsert entity) id includeSelf
      ((entities.upsert entity).closure id includeSelf) :=
    Graph.isClosure_ancestors (entities.upsert entity) includeSelf id
  have hresolves : entities.Resolves id := hclosure.answers.1 ⟨closure, h⟩
  have hstored : ∀ x, entities.Stored x → (entities.upsert entity).Stored x := by
    rintro x ⟨e, he⟩
    have hne : x ≠ entity.id := by
      rintro rfl
      exact hnew ⟨e, he⟩
    exact ⟨e, (find?_upsert_of_ne hne).trans he⟩
  have hresolves' : (entities.upsert entity).Resolves id :=
    ⟨hstored id hresolves.1, fun y hy =>
      hstored y (hresolves.2 y ((ancestor_upsert_of_new hnew hresolves).1 hy))⟩
  obtain ⟨closure', h'⟩ := hclosure'.answers.2 hresolves'
  have hsame : closure' = closure := by
    apply IdSet.ext
    intro y
    rw [hclosure'.members closure' h', hclosure.members closure h,
      ancestor_upsert_of_new hnew hresolves]
  rw [h', hsame]

end NewEntity

/-- The graph has these entities, and every closure that it remembers is what a walk would find. -/
structure Graph.Current (entities : Table Entity) (graph : Graph) : Prop where
  entities_eq : graph.entities = entities
  memo : ∀ memo, graph.memo = some memo →
    memo.Each fun key closure => entities.closure key.1 key.2 = .ok closure

namespace Graph

variable {entities : Table Entity}

theorem current_memoless (entities : Table Entity) : Current entities ⟨entities, none⟩ :=
  ⟨rfl, nofun⟩

theorem current_new (entities : Table Entity) (config : CacheConfig) :
    Current entities ⟨entities, Memo.ofConfig config⟩ where
  entities_eq := rfl
  memo _ := Memo.each_of_ofConfig

/-- A graph that has forgotten what it remembered is current, whatever its entities are. -/
theorem current_clear (entities : Table Entity)
    (memo : Option (Memo (EntityId × Bool) (IdSet .entity))) :
    Current entities ⟨entities, memo.map Memo.clear⟩ := by
  refine ⟨rfl, fun cleared hcleared => ?_⟩
  obtain ⟨old, -, rfl⟩ := Option.map_eq_some_iff.1 hcleared
  exact Memo.each_clear

/-- A new entity makes nothing outdated. -/
theorem Current.put {graph : Graph} (h : graph.Current entities) {entity : Entity}
    (hnew : ¬entities.Stored entity.id) : Current (entities.upsert entity) (put entity graph).state := by
  obtain ⟨rfl, hmemo⟩ := h
  refine ⟨rfl, fun memo hfound => (hmemo memo hfound).mono fun key closure hclosure => ?_⟩
  exact Table.closure_upsert_of_new hnew hclosure

/-- Nor does a new edge, for it makes the graph forget. -/
theorem Current.addParent {graph : Graph} (h : graph.Current entities) (target parent : EntityId) :
    Current
      ((entities.find? target).elim entities fun entity => entities.upsert (entity.addParent parent))
      (addParent target parent graph).state := by
  obtain ⟨rfl, hmemo⟩ := h
  simp only [Graph.addParent, link, Act.bind_apply, Act.get_apply]
  cases graph.entities.find? target with
  | none => exact ⟨rfl, hmemo⟩
  | some entity => exact current_clear _ graph.memo

/-! ### Asking a current graph -/

theorem ensures_remembered (id : EntityId) (includeSelf : Bool) :
    Act.Ensures (Current entities)
      (Act.Gives fun hit => ∀ closure, hit = some closure →
        entities.closure id includeSelf = .ok closure)
      (remembered id includeSelf) := by
  apply Act.ensures_of
  rintro ⟨stored, memo⟩ ⟨hstored, hmemo⟩
  cases memo with
  | none => exact ⟨⟨hstored, hmemo⟩, none, rfl, nofun⟩
  | some memo =>
    obtain ⟨hhit, hrest⟩ := (hmemo memo rfl).get (id, includeSelf)
    refine ⟨⟨hstored, fun memo' hmemo' => ?_⟩, _, rfl, hhit⟩
    cases hmemo'
    exact hrest

/-- Remembering a closure that is current leaves the graph current. -/
theorem ensures_remember {id : EntityId} {includeSelf : Bool} {closure : IdSet .entity}
    (h : entities.closure id includeSelf = .ok closure) :
    Act.Ensures (Current entities) (· = .ok ()) (remember id includeSelf closure) := by
  refine Act.ensures_modify (fun graph hgraph => ⟨hgraph.entities_eq, fun memo hmemo => ?_⟩) rfl
  obtain ⟨old, hold, rfl⟩ := Option.map_eq_some_iff.1 hmemo
  exact (hgraph.memo old hold).insert h

/-- To resolve is to walk, and to remember what is found. -/
theorem resolve_cases (root : Entity) (includeSelf : Bool) (graph : Graph) :
    (∃ missing, (Walk.ofEntity graph.entities root includeSelf).result = .error missing ∧
      (resolve root includeSelf graph).result = .error (.notFound missing) ∧
      (resolve root includeSelf graph).state = graph) ∨
    (∃ closure, (Walk.ofEntity graph.entities root includeSelf).result = .ok closure ∧
      (resolve root includeSelf graph).result = .ok closure ∧
      (resolve root includeSelf graph).state = (remember root.id includeSelf closure graph).state) := by
  simp only [resolve, Act.bind_apply, Act.get_apply, Act.recordAll_apply]
  cases (Walk.ofEntity graph.entities root includeSelf).result with
  | error missing => exact .inl ⟨missing, rfl, rfl, rfl⟩
  | ok closure => exact .inr ⟨closure, rfl, rfl, rfl⟩

/-- To walk from a stored entity is to find its closure. -/
theorem ensures_resolve {entity : Entity} (h : entities.find? entity.id = some entity)
    (includeSelf : Bool) :
    Act.Ensures (Current entities) (· = entities.closure entity.id includeSelf)
      (resolve entity includeSelf) := by
  have hclosure := Table.closure_of_find? h includeSelf
  refine Act.ensures_of fun graph hgraph => ?_
  rcases resolve_cases entity includeSelf graph with
    ⟨missing, hwalk, hresult, hstate⟩ | ⟨closure, hwalk, hresult, hstate⟩
  · rw [hgraph.entities_eq] at hwalk
    rw [hwalk] at hclosure
    rw [hresult, hstate]
    exact ⟨hgraph, hclosure.symm⟩
  · rw [hgraph.entities_eq] at hwalk
    rw [hwalk] at hclosure
    rw [hresult, hstate]
    exact ⟨(ensures_remember hclosure).keeps graph hgraph, hclosure.symm⟩

theorem ensures_retrieve (id : EntityId) :
    Act.Ensures (Current entities)
      (· = (entities.find? id).elim (.error (.notFound id)) .ok) (retrieve id) where
  keeps graph hgraph := by
    rw [retrieve_apply]
    exact hgraph
  result graph hgraph := by
    rw [retrieve_apply, hgraph.entities_eq]

/-- **Whether closures are remembered makes no difference to what asking for one comes to**, in a
current graph. -/
theorem ensures_ancestors (id : EntityId) (includeSelf : Bool) :
    Act.Ensures (Current entities) (· = entities.closure id includeSelf)
      (ancestors id includeSelf) := by
  rw [ancestors]
  refine (ensures_remembered id includeSelf).bind_gives fun hit hhit => ?_
  cases hit with
  | some closure => exact Act.ensures_pure (hhit closure rfl).symm
  | none =>
    have hretrieve : Act.Ensures (Current entities) _ (retrieve id) := ensures_retrieve id
    cases hfind : entities.find? id with
    | none =>
      rw [hfind] at hretrieve
      refine hretrieve.bind (fun e he => ?_) fun entity he => nomatch he
      rw [Table.closure, (ancestors_memoless entities includeSelf id).1, hfind]
      cases he
      rfl
    | some entity =>
      obtain rfl : entity.id = id := Table.idOf_of_find? hfind
      rw [hfind] at hretrieve
      refine hretrieve.bind (fun e he => nomatch he) fun entity' he => ?_
      cases he
      exact ensures_resolve hfind includeSelf

/-- The same goes for an entity at hand that is the stored one. -/
theorem ensures_ancestorsOf {entity : Entity} (h : entities.find? entity.id = some entity)
    (includeSelf : Bool) :
    Act.Ensures (Current entities) (· = entities.closure entity.id includeSelf)
      (ancestorsOf entity includeSelf) := by
  rw [ancestorsOf]
  refine (ensures_remembered entity.id includeSelf).bind_gives fun hit hhit => ?_
  cases hit with
  | some closure => exact Act.ensures_pure (hhit closure rfl).symm
  | none => exact ensures_resolve h includeSelf

theorem steady_isSubOf_of_stored {entity : Entity} (h : entities.find? entity.id = some entity)
    (target : EntityId) : Act.Steady (Current entities) (isSubOf entity target) := by
  rw [isSubOf]
  split
  · exact Act.steady_pure true
  · exact (ensures_ancestorsOf h false).steady.bind fun _ => Act.steady_pure _

end Graph

/-! ### Inquiries -/

/-- The inquiry is about a current graph of these entities, and the requester it has kept, if any,
is the stored one. -/
structure Inquiry.Current (entities : Table Entity) (requester : EntityId) (inquiry : Inquiry) :
    Prop where
  graph : inquiry.graph.Current entities
  kept : ∀ e, inquiry.requester = some e → entities.find? requester = some e

namespace Inquiry

variable {entities : Table Entity} {requester : EntityId}

/-- As long as the requester has not been asked for. -/
theorem current_unasked {graph : Graph} (h : graph.Current entities) :
    Current entities requester ⟨graph, none⟩ where
  graph := h
  kept e he := by cases he

theorem ensures_onGraph {α : Type} {R : Except Error α → Prop} {x : Act Graph α}
    (hx : Act.Ensures (Graph.Current entities) R x) :
    Act.Ensures (Current entities requester) R (onGraph x) :=
  hx.zoom (fun _ hs => hs.graph) fun _ _ hs ht => ⟨ht, hs.kept⟩

theorem ensures_fetchRequester :
    Act.Ensures (Current entities requester)
      (· = (entities.find? requester).elim (.error (.notFound requester)) .ok)
      (fetchRequester requester) := by
  have hfetch : ∀ s, Current entities requester s →
      (fetchRequester requester s).result =
          (entities.find? requester).elim (.error (.notFound requester)) .ok ∧
        (fetchRequester requester s).state = { s with requester := entities.find? requester } := by
    intro s hs
    have hkept : ∀ e, s.requester = some e → s.graph.entities.find? requester = some e := by
      rw [hs.graph.entities_eq]
      exact hs.kept
    rw [← hs.graph.entities_eq]
    exact fetchRequester_of_kept hkept
  refine ⟨fun s hs => ?_, fun s hs => (hfetch s hs).1⟩
  rw [(hfetch s hs).2]
  exact ⟨hs.graph, fun _ he => he⟩

end Inquiry
end PolicyDecision
