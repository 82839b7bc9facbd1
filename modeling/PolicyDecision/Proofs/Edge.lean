import Mathlib.Computability.Primrec.List
import PolicyDecision.Proofs.Ancestry
import PolicyDecision.Proofs.Irrelevance

/-!
# What a new edge adds

When an entity gets another parent, whatever leads to the entity gets the parent for an ancestor, and
what the parent leads to. That is all, also if the edge closes a cycle, for a path that goes over the
edge more than once can be cut short to one that goes over it once (`Table.ancestor_addParent`).

So the closures of an engine grow by the closure of the parent, or stay as they are
(`Engine.addParent_extends`), whatever was done with the engine before and whatever it remembers.
-/

namespace PolicyDecision

/-- The members of either set. -/
def IdSet.union {kind : Kind} (s t : IdSet kind) : IdSet kind :=
  .ofList (s.toList ++ t.toList)

@[simp] theorem IdSet.mem_union {kind : Kind} {s t : IdSet kind} {x : Id kind} :
    x ∈ s.union t ↔ x ∈ s ∨ x ∈ t := by
  rw [union, mem_ofList, List.mem_append]
  rfl

/-- To be made a parent once more changes nothing. -/
theorem Entity.addParent_of_mem {entity : Entity} {parent : EntityId} (h : parent ∈ entity.parents) :
    entity.addParent parent = entity := by
  have hparents : entity.parents.insert parent = entity.parents := by
    ext x
    rw [IdSet.mem_insert, or_iff_right_of_imp]
    rintro rfl
    exact h
  rw [addParent, hparents]

/-! ### The graph with the edge -/

namespace Table

variable {entities : Table Entity} {entity : Entity} {parent x y : EntityId}
  (h : entities.find? entity.id = some entity)
include h

theorem parent_addParent :
    (entities.upsert (entity.addParent parent)).Parent x y ↔
      entities.Parent x y ∨ (x = entity.id ∧ y = parent) := by
  rw [Parent, find?_upsert]
  show (∃ e, (if entity.id = x then some (entity.addParent parent) else entities.find? x) = some e ∧
    y ∈ e.parents) ↔ _
  by_cases hx : entity.id = x
  · subst hx
    simp [Parent, h, Entity.addParent, or_comm]
  · simp [Parent, hx, Ne.symm hx]

theorem stored_addParent :
    (entities.upsert (entity.addParent parent)).Stored x ↔ entities.Stored x := by
  rw [Stored, find?_upsert]
  show (∃ e, (if entity.id = x then some (entity.addParent parent) else entities.find? x) = some e) ↔ _
  by_cases hx : entity.id = x
  · subst hx
    simp [Stored, h]
  · simp [Stored, hx]

/-- **The new paths are those that go over the edge once.** -/
theorem ancestor_addParent :
    (entities.upsert (entity.addParent parent)).Ancestor x y ↔
      entities.Ancestor x y ∨ (entities.Leads x entity.id ∧ entities.Leads parent y) := by
  constructor
  · intro hxy
    induction hxy with
    | single hedge =>
      rcases (parent_addParent h).1 hedge with hold | ⟨rfl, rfl⟩
      · exact .inl (.single hold)
      · exact .inr ⟨.refl, .refl⟩
    | tail _ hedge ih =>
      rcases (parent_addParent h).1 hedge with hold | ⟨rfl, rfl⟩
      · rcases ih with hpath | ⟨hto, hfrom⟩
        · exact .inl (hpath.tail hold)
        · exact .inr ⟨hto, hfrom.tail hold⟩
      · -- Whether the path came over the edge before or not, it leads to the entity without it.
        rcases ih with hpath | ⟨hto, -⟩
        · exact .inr ⟨hpath.to_reflTransGen, .refl⟩
        · exact .inr ⟨hto, .refl⟩
  · have hparents : ∀ a b, entities.Parent a b →
        (entities.upsert (entity.addParent parent)).Parent a b :=
      fun a b hab => (parent_addParent h).2 (.inl hab)
    have hedge : (entities.upsert (entity.addParent parent)).Parent entity.id parent :=
      (parent_addParent h).2 (.inr ⟨rfl, rfl⟩)
    rintro (hxy | ⟨hto, hfrom⟩)
    · exact Relation.TransGen.mono hparents _ _ hxy
    · exact .trans_left (.tail' (Relation.ReflTransGen.mono hparents _ _ hto) hedge)
        (Relation.ReflTransGen.mono hparents _ _ hfrom)

/-- What resolves still does, if the parent resolves. -/
theorem Resolves.addParent (hx : entities.Resolves x) (hparent : entities.Resolves parent) :
    (entities.upsert (entity.addParent parent)).Resolves x := by
  refine ⟨(stored_addParent h).2 hx.1, fun y hy => (stored_addParent h).2 ?_⟩
  rcases (ancestor_addParent h).1 hy with hold | ⟨-, hfrom⟩
  · exact hx.2 y hold
  · rcases leads_iff.1 hfrom with rfl | hpath
    · exact hparent.1
    · exact hparent.2 y hpath

/-- **A closure grows by that of the parent if it leads to the entity**, and else stays as it is. -/
theorem closure_addParent {includeSelf includeParent : Bool} {found above : IdSet .entity}
    (hfound : entities.closure x includeSelf = .ok found)
    (habove : entities.closure parent includeParent = .ok above) :
    (entities.upsert (entity.addParent parent)).closure x includeSelf = .ok
      (if x = entity.id ∨ entity.id ∈ found then found.union (above.insert parent) else found) := by
  have hclosure : IsClosure entities x includeSelf _ := Graph.isClosure_ancestors entities includeSelf x
  have hparent : IsClosure entities parent includeParent _ :=
    Graph.isClosure_ancestors entities includeParent parent
  have hclosure' : IsClosure (entities.upsert (entity.addParent parent)) x includeSelf _ :=
    Graph.isClosure_ancestors _ includeSelf x
  have hleads : x = entity.id ∨ entity.id ∈ found ↔ entities.Leads x entity.id := by
    rw [hclosure.members found hfound, leads_iff]
    grind
  have habove' : ∀ y, y ∈ above.insert parent ↔ entities.Leads parent y := by
    intro y
    rw [IdSet.mem_insert, hparent.members above habove, leads_iff]
    grind
  obtain ⟨found', hfound'⟩ := hclosure'.answers.2
    ((hclosure.answers.1 ⟨found, hfound⟩).addParent h (hparent.answers.1 ⟨above, habove⟩))
  have hsame : found' =
      if x = entity.id ∨ entity.id ∈ found then found.union (above.insert parent) else found := by
    ext y
    rw [hclosure'.members found' hfound', ancestor_addParent h]
    split
    · next hto =>
      rw [IdSet.mem_union, habove', hclosure.members found hfound]
      simp only [hleads.1 hto, true_and, or_right_comm]
    · next hto =>
      rw [hclosure.members found hfound]
      simp only [mt hleads.2 hto, false_and, or_false]
  rw [← hsame]
  exact hfound'

omit h in
/-- What does not lead to the entity comes to the same, be it an answer or a failure. -/
theorem closure_addParent_of_not_leads (hx : ¬entities.Leads x entity.id) (includeSelf : Bool) :
    (entities.upsert (entity.addParent parent)).closure x includeSelf =
      entities.closure x includeSelf := by
  have hsame : entities.SameFrom (entities.upsert (entity.addParent parent)) x := sameFrom_upsert hx
  exact Graph.ancestors_congr hsame includeSelf

end Table

/-! ### Engines -/

namespace Engine

variable {engine : Engine} {entities : Table Entity} {target parent : EntityId}

/-- To make `parent` a parent of a stored entity is to write it and to forget all closures. -/
theorem addParent_of_stored {entity : Entity} (h : engine.graph.entities.find? target = some entity) :
    addParent target parent engine =
      ⟨.ok (), { engine with graph :=
          ⟨engine.graph.entities.upsert (entity.addParent parent), engine.graph.memo.map Memo.clear⟩ },
        [.logged (.edgeAdded target parent)]⟩ := by
  simp only [addParent, onGraph, Act.zoom_apply, Graph.addParent, Graph.link, Act.bind_apply,
    Act.get_apply, h]
  rfl

/-- Nothing is written under an identifier that is not in use, and nothing is forgotten. -/
theorem addParent_of_missing (h : ¬engine.graph.entities.Stored target) :
    addParent target parent engine = ⟨.error (.notFound target), engine, []⟩ := by
  simp only [addParent, onGraph, Act.zoom_apply, Graph.addParent, Graph.link, Act.bind_apply,
    Act.get_apply, Table.not_stored.1 h]
  rfl

/-- What making `parent` a parent of `target` does to an engine. -/
structure Extends (engine : Engine) (target parent : EntityId) (linked : Outcome Engine Unit) :
    Prop where
  answers : linked.result = .ok ()
  /-- The closure of whatever leads to `target` grows by `parent` and its ancestors, and the others
  stay as they are. -/
  closures : ∀ x includeSelf found includeParent above,
    (ancestors x includeSelf engine).result = .ok found →
    (ancestors parent includeParent engine).result = .ok above →
    (ancestors x includeSelf linked.state).result = .ok
      (if x = target ∨ target ∈ found then found.union (above.insert parent) else found)
  /-- What does not lead to `target` comes to the same, also if something is missing. -/
  elsewhere : ∀ x includeSelf, ¬engine.graph.entities.Leads x target →
    (ancestors x includeSelf linked.state).result = (ancestors x includeSelf engine).result
  /-- The second time, nothing is written. -/
  again : (addParent target parent linked.state).result = .ok () ∧
    (addParent target parent linked.state).state.store = linked.state.store

theorem extends_addParent (h : engine.graph.Current entities) (htarget : entities.Stored target) :
    Extends engine target parent (addParent target parent engine) := by
  obtain ⟨entity, hfind⟩ := htarget
  obtain rfl : entity.id = target := Table.idOf_of_find? hfind
  obtain rfl : engine.graph.entities = entities := h.entities_eq
  have hlinked := h.addParent entity.id parent
  rw [hfind, Option.elim_some] at hlinked
  have hbefore : ∀ x includeSelf, (ancestors x includeSelf engine).result =
      engine.graph.entities.closure x includeSelf :=
    fun x includeSelf => (Graph.ensures_ancestors x includeSelf).result _ h
  have hafter : ∀ x includeSelf,
      (ancestors x includeSelf (addParent entity.id parent engine).state).result =
        (engine.graph.entities.upsert (entity.addParent parent)).closure x includeSelf :=
    fun x includeSelf => (Graph.ensures_ancestors x includeSelf).result _ hlinked
  constructor
  · rw [addParent_of_stored hfind]
  · intro x includeSelf found includeParent above hfound habove
    rw [hbefore] at hfound habove
    rw [hafter]
    exact Table.closure_addParent hfind hfound habove
  · intro x includeSelf hx
    rw [hafter, hbefore]
    exact Table.closure_addParent_of_not_leads hx includeSelf
  · have hmem : parent ∈ (entity.addParent parent).parents := IdSet.mem_insert.2 (.inl rfl)
    have hstored : (engine.graph.entities.upsert (entity.addParent parent)).find? entity.id =
        some (entity.addParent parent) := Table.find?_upsert_self _
    rw [addParent_of_stored hfind, addParent_of_stored hstored, Entity.addParent_of_mem hmem]
    refine ⟨rfl, ?_⟩
    have hsame : (engine.graph.entities.upsert (entity.addParent parent)).upsert
        (entity.addParent parent) = engine.graph.entities.upsert (entity.addParent parent) :=
      Table.upsert_of_find? (Table.find?_upsert_self _)
    simp only [store, hsame]

/-- **A new edge extends the closures by exactly the new paths.** Let an engine of any configuration
perform any operations, each new entity under an identifier that is not in use. To make `parent` a
parent of a stored entity then succeeds. What is or leads to the entity gets the parent and its
ancestors, nothing else changes, and the same edge once more writes nothing. Where the entity is not
stored, this fails, and leaves the engine as it is, with all that it would answer. -/
theorem addParent_extends {store : Store} {registry : Registry} {operations : List Operation}
    (hnew : CreatesNew ⟨store, registry⟩ operations) (config : Config) (target parent : EntityId) :
    let engine := (new store config registry).run operations
    let linked := addParent target parent engine
    (engine.graph.entities.Stored target → Extends engine target parent linked) ∧
    (¬engine.graph.entities.Stored target →
      linked.result = .error (.notFound target) ∧ linked.state = engine) := by
  intro engine linked
  have hcurrent : engine.graph.Current (Documents.after ⟨store, registry⟩ operations).entities :=
    current_run (Graph.current_new store.entities config.cache) hnew
  refine ⟨fun hstored => extends_addParent hcurrent ?_, fun hmissing => ?_⟩
  · rwa [← hcurrent.entities_eq]
  · rw [show linked = _ from addParent_of_missing hmissing]
    exact ⟨rfl, rfl⟩

/-- The second member joins the first one's group, whose leader the first member is: a closure that is
remembered grows, and the edge closes a cycle. -/
theorem addParent_extends_cyclic :
    let member : EntityId := ⟨⟨1⟩⟩
    let group : EntityId := ⟨⟨2⟩⟩
    let operations : List Operation :=
      [.createEntity member (.ofList [group]), .createEntity group .empty,
        .ancestors member false, .ancestors group true]
    let engine := (new {} { cache := { enabled := true } } {}).run operations
    let linked := addParent group member engine
    CreatesNew ⟨{}, {}⟩ operations ∧ engine.graph.entities.Stored group ∧
      (ancestors member false engine).result = .ok (.ofList [group]) ∧
      (ancestors member false linked.state).result = .ok (.ofList [member, group]) ∧
      (ancestors group true linked.state).result = .ok (.ofList [member, group]) := by
  intro member group operations engine linked
  have hnew : CreatesNew ⟨{}, {}⟩ operations := by
    refine ⟨?_, ?_, trivial, trivial, trivial⟩
    · rintro ⟨e, he⟩
      cases he
    · rintro ⟨e, he⟩
      cases he
  have hstored : engine.graph.entities.Stored group := ⟨{ id := group }, by cbv⟩
  have hmember : (ancestors member false engine).result = .ok (.ofList [group]) := by cbv
  have hgroup : (ancestors group true engine).result = .ok (.ofList [group]) := by cbv
  obtain ⟨hextends, -⟩ := addParent_extends hnew { cache := { enabled := true } } group member
  have hclosures := (hextends hstored).closures
  refine ⟨hnew, hstored, hmember, ?_, ?_⟩
  · refine (hclosures member false _ false _ hmember hmember).trans (congrArg Except.ok ?_)
    decide
  · refine (hclosures group true _ false _ hgroup hmember).trans (congrArg Except.ok ?_)
    decide

end Engine
end PolicyDecision
