import Mathlib.Logic.Relation
import PolicyDecision.Graph
import PolicyDecision.Proofs.Act
import PolicyDecision.Proofs.Table

/-!
# Ancestors are what parent edges reach

The graph of a table of entities has an edge from a stored entity to each of its parents; the
parents need not be stored, and there may be cycles. Asking for the ancestors of an entity answers
exactly when the entity and all that can be reached from it are stored, and then with what can be
reached (`IsClosure`).

A walk keeps two sets, the visited identifiers and the waiting ones. Two facts carry it, each by
the induction of `Walk.visit`:

* every parent of what has been visited, and of the root, has been visited or waits
  (`Walk.Explored`), so nothing is left out when nothing waits any more;
* whatever holds of the visited and waiting identifiers and is handed down along edges holds of
  the result (`Walk.within_visit`), so nothing is in it that cannot be reached.
-/

namespace PolicyDecision

/-! ### The graph of a table -/

namespace Table

variable (entities : Table Entity)

/-- There is an entity of this identifier. -/
def Stored (x : EntityId) : Prop :=
  ∃ e, entities.find? x = some e

/-- There is an edge from `x` to its parent `y`. -/
def Parent (x y : EntityId) : Prop :=
  ∃ e, entities.find? x = some e ∧ y ∈ e.parents

/-- One edge or several lead from `x` to `y`. -/
def Ancestor : EntityId → EntityId → Prop :=
  Relation.TransGen entities.Parent

/-- `x` is stored, and so is everything that can be reached from it. -/
def Resolves (x : EntityId) : Prop :=
  entities.Stored x ∧ ∀ y, entities.Ancestor x y → entities.Stored y

variable {entities}

theorem not_stored {x : EntityId} : ¬entities.Stored x ↔ entities.find? x = none := by
  rw [Stored, ← Option.isSome_iff_exists, Bool.not_eq_true, Option.isSome_eq_false_iff,
    Option.isNone_iff_eq_none]

/-- An entity put into the graph is found there. -/
theorem find?_upsert_self (e : Entity) : (entities.upsert e).find? e.id = some e := by
  rw [find?_upsert]
  exact if_pos rfl

/-- A stored entity resolves if parents are stored. -/
theorem resolves_of_parents (hparents : ∀ x y, entities.Parent x y → entities.Stored y)
    {x : EntityId} (hx : entities.Stored x) : entities.Resolves x := by
  refine ⟨hx, fun y hy => ?_⟩
  cases hy with
  | single hparent => exact hparents _ _ hparent
  | tail _ hparent => exact hparents _ _ hparent

/-- The parents of all entities can be looked up one after the other. -/
theorem stored_of_parent
    (hdocs : ∀ e ∈ entities.docs, ∀ y ∈ e.parents.toList, (entities.find? y).isSome)
    (x y : EntityId) (hxy : entities.Parent x y) : entities.Stored y := by
  obtain ⟨e, he, hy⟩ := hxy
  exact Option.isSome_iff_exists.1 (hdocs e (mem_of_find? he) y hy)

end Table

/-- What asking for the ancestors of `x` must come to: an answer exactly when everything needed is
stored, the ancestors as the answer, and else the identifier of something that is missing. -/
structure IsClosure (entities : Table Entity) (x : EntityId) (includeSelf : Bool)
    (result : Except Error (IdSet .entity)) : Prop where
  answers : (∃ closure, result = .ok closure) ↔ entities.Resolves x
  members : ∀ closure, result = .ok closure →
    ∀ y, y ∈ closure ↔ entities.Ancestor x y ∨ (includeSelf = true ∧ y = x)
  missing : ∀ e, result = .error e →
    ∃ y : EntityId, e = .notFound y ∧ (y = x ∨ entities.Ancestor x y) ∧ ¬entities.Stored y

/-! ### One visit at a time -/

namespace Walk

variable {entities : Table Entity} {root : EntityId} {visited : IdSet .entity}
  {current : EntityId} {pending : List EntityId}

theorem visit_nil : visit entities root visited [] = ⟨[], .ok visited⟩ := by
  rw [visit]

theorem visit_seen (h : current ∈ visited) :
    visit entities root visited (current :: pending) = visit entities root visited pending := by
  rw [visit, if_pos h]

theorem visit_root (h : root ∉ visited) :
    visit entities root visited (root :: pending) =
      visit entities root (visited.insert root) pending := by
  rw [visit, if_neg h, if_pos rfl]

theorem visit_missing (h : current ∉ visited) (hroot : current ≠ root)
    (hfind : entities.find? current = none) :
    visit entities root visited (current :: pending) = ⟨[current], .error current⟩ := by
  rw [visit, if_neg h, if_neg hroot]
  split
  · rfl
  · next hnode => rw [hfind] at hnode; cases hnode

theorem visit_found {node : Entity} (h : current ∉ visited) (hroot : current ≠ root)
    (hfind : entities.find? current = some node) :
    visit entities root visited (current :: pending) =
      ⟨current :: (visit entities root (visited.insert current)
          (pending ++ node.parents.toList.filter fun p => p ∉ visited.insert current)).fetched,
        (visit entities root (visited.insert current)
          (pending ++ node.parents.toList.filter fun p => p ∉ visited.insert current)).result⟩ := by
  rw [visit, if_neg h, if_neg hroot]
  split
  · next hnode => rw [hfind] at hnode; cases hnode
  · next node' hnode =>
    rw [hfind] at hnode
    cases hnode
    rfl

/-! ### What a walk leaves out -/

/-- Visiting the head of the queue loses nothing. -/
theorem visited_or_waits {x : EntityId} {added : List EntityId}
    (hx : x ∈ visited ∨ x ∈ current :: pending) :
    x ∈ visited.insert current ∨ x ∈ pending ++ added := by
  rcases hx with hx | hx
  · exact .inl (IdSet.mem_insert.2 (.inr hx))
  · rcases List.mem_cons.1 hx with rfl | hx
    · exact .inl (IdSet.mem_insert.2 (.inl rfl))
    · exact .inr (List.mem_append_left added hx)

/-- Whatever was visited is stored, and the parents of whatever was visited, and of the root, were
visited or wait. The root stands for its own stored record. -/
structure Explored (entities : Table Entity) (root : Entity) (visited : IdSet .entity)
    (pending : List EntityId) : Prop where
  stored : ∀ x ∈ visited, (entities.upsert root).Stored x
  covered : ∀ x y, x ∈ visited ∨ x = root.id → (entities.upsert root).Parent x y →
    y ∈ visited ∨ y ∈ pending

namespace Explored

variable {root : Entity}

/-- A walk starts with the parents of its root. -/
theorem start (h : ∀ x ∈ visited, x = root.id) :
    Explored entities root visited root.parents.toList where
  stored x hx := ⟨root, by rw [h x hx, Table.find?_upsert_self]⟩
  covered x y hx hxy := by
    have hroot : x = root.id := hx.elim (h x) id
    obtain ⟨e, he, hy⟩ := hxy
    rw [hroot, Table.find?_upsert_self] at he
    cases he
    exact .inr hy

theorem skip (h : Explored entities root visited (current :: pending)) (hseen : current ∈ visited) :
    Explored entities root visited pending where
  stored := h.stored
  covered x y hx hxy := by
    rcases h.covered x y hx hxy with hy | hy
    · exact .inl hy
    · rcases List.mem_cons.1 hy with rfl | hy
      · exact .inl hseen
      · exact .inr hy

/-- Visiting one more identifier, whose parents are among those that wait afterwards. -/
theorem visit {added : List EntityId} (h : Explored entities root visited (current :: pending))
    (hstored : (entities.upsert root).Stored current)
    (hadded : ∀ y, (entities.upsert root).Parent current y →
      y ∈ visited.insert current ∨ y ∈ pending ++ added) :
    Explored entities root (visited.insert current) (pending ++ added) where
  stored x hx := by
    rcases IdSet.mem_insert.1 hx with rfl | hx
    · exact hstored
    · exact h.stored x hx
  covered x y hx hxy := by
    by_cases hcurrent : x = current
    · exact hadded y (hcurrent ▸ hxy)
    · have hx : x ∈ visited ∨ x = root.id := by
        rcases hx with hx | hx
        · exact .inl ((IdSet.mem_insert.1 hx).resolve_left hcurrent)
        · exact .inr hx
      exact visited_or_waits (h.covered x y hx hxy)

/-- Visiting the root: its parents were seen to before. -/
theorem visit_root (h : Explored entities root visited (root.id :: pending)) :
    Explored entities root (visited.insert root.id) pending := by
  have hvisit : Explored entities root (visited.insert root.id) (pending ++ []) :=
    h.visit ⟨root, Table.find?_upsert_self root⟩ fun y hy =>
      visited_or_waits (h.covered root.id y (.inr rfl) hy)
  rwa [List.append_nil] at hvisit

/-- Visiting another stored entity: its parents join the queue, unless they were visited. -/
theorem visit_found {node : Entity} (h : Explored entities root visited (current :: pending))
    (hroot : current ≠ root.id) (hfind : entities.find? current = some node) :
    Explored entities root (visited.insert current)
      (pending ++ node.parents.toList.filter fun p => p ∉ visited.insert current) := by
  have hfind' : (entities.upsert root).find? current = some node := by
    rw [Table.find?_upsert_of_ne hroot, hfind]
  apply h.visit ⟨node, hfind'⟩
  intro y hy
  obtain ⟨e, he, hy⟩ := hy
  rw [hfind'] at he
  cases he
  by_cases hvisited : y ∈ visited.insert current
  · exact .inl hvisited
  · refine .inr (List.mem_append_right pending (List.mem_filter.2 ⟨hy, ?_⟩))
    simpa using hvisited

end Explored

variable {closure : IdSet .entity}

/-- When a walk ends with a result, nothing waits and nothing was left out. -/
theorem explored_visit {root : Entity} (hexplored : Explored entities root visited pending)
    (hresult : (visit entities root.id visited pending).result = .ok closure) :
    Explored entities root closure [] ∧ ∀ x, x ∈ visited ∨ x ∈ pending → x ∈ closure := by
  induction visited, pending using visit.induct entities root.id with
  | case1 visited =>
    rw [visit_nil] at hresult
    cases hresult
    refine ⟨hexplored, fun x hx => ?_⟩
    simpa using hx
  | case2 visited current pending hseen ih =>
    rw [visit_seen hseen] at hresult
    obtain ⟨hclosure, hmem⟩ := ih (hexplored.skip hseen) hresult
    refine ⟨hclosure, fun x hx => hmem x ?_⟩
    rcases hx with hx | hx
    · exact .inl hx
    · rcases List.mem_cons.1 hx with rfl | hx
      · exact .inl hseen
      · exact .inr hx
  | case3 visited pending hseen visited' ih =>
    rw [visit_root hseen] at hresult
    obtain ⟨hclosure, hmem⟩ := ih hexplored.visit_root hresult
    refine ⟨hclosure, fun x hx => hmem x ?_⟩
    rw [← List.append_nil pending]
    exact visited_or_waits hx
  | case4 visited current pending hseen hroot hfind =>
    rw [visit_missing hseen hroot hfind] at hresult
    cases hresult
  | case5 visited current pending hseen visited' hroot node hfind ih =>
    rw [visit_found hseen hroot hfind] at hresult
    obtain ⟨hclosure, hmem⟩ := ih (hexplored.visit_found hroot hfind) hresult
    exact ⟨hclosure, fun x hx => hmem x (visited_or_waits hx)⟩

/-! ### What a walk can find -/

variable {P : EntityId → Prop}

/-- What holds of all that was visited or waits still does when the head of the queue is visited. -/
theorem within_insert (h : ∀ x, x ∈ visited ∨ x ∈ current :: pending → P x) (x : EntityId)
    (hx : x ∈ visited.insert current ∨ x ∈ pending) : P x := by
  rcases hx with hx | hx
  · rcases IdSet.mem_insert.1 hx with rfl | hx
    · exact h x (.inr List.mem_cons_self)
    · exact h x (.inl hx)
  · exact h x (.inr (List.mem_cons_of_mem current hx))

/-- The parents that join the queue have what is handed down along edges. -/
theorem within_found {root node : Entity}
    (hstep : ∀ x y, P x → (entities.upsert root).Parent x y → P y)
    (h : ∀ x, x ∈ visited ∨ x ∈ current :: pending → P x) (hroot : current ≠ root.id)
    (hfind : entities.find? current = some node) (x : EntityId)
    (hx : x ∈ visited.insert current ∨
      x ∈ pending ++ node.parents.toList.filter fun p => p ∉ visited.insert current) : P x := by
  rcases hx with hx | hx
  · exact within_insert h x (.inl hx)
  · rcases List.mem_append.1 hx with hx | hx
    · exact within_insert h x (.inr hx)
    · have hcurrent : P current := h current (.inr List.mem_cons_self)
      refine hstep current x hcurrent ⟨node, ?_, (List.mem_filter.1 hx).1⟩
      rw [Table.find?_upsert_of_ne hroot, hfind]

/-- What holds of all that was visited or waits, and is handed down along edges, holds of the
result, and of the identifier that a walk stops at because it is not stored. -/
theorem within_visit {root : Entity}
    (hstep : ∀ x y, P x → (entities.upsert root).Parent x y → P y)
    (h : ∀ x, x ∈ visited ∨ x ∈ pending → P x) :
    match (visit entities root.id visited pending).result with
    | .ok closure => ∀ x ∈ closure, P x
    | .error x => P x ∧ ¬(entities.upsert root).Stored x := by
  induction visited, pending using visit.induct entities root.id with
  | case1 visited =>
    rw [visit_nil]
    exact fun x hx => h x (.inl hx)
  | case2 visited current pending hseen ih =>
    rw [visit_seen hseen]
    exact ih fun x hx => h x (hx.imp_right (List.mem_cons_of_mem current))
  | case3 visited pending hseen visited' ih =>
    rw [visit_root hseen]
    exact ih (within_insert h)
  | case4 visited current pending hseen hroot hfind =>
    rw [visit_missing hseen hroot hfind]
    refine ⟨h current (.inr List.mem_cons_self), ?_⟩
    rw [Table.not_stored, Table.find?_upsert_of_ne hroot, hfind]
  | case5 visited current pending hseen visited' hroot node hfind ih =>
    rw [visit_found hseen hroot hfind]
    exact ih (within_found hstep h hroot hfind)

/-! ### Walks find the ancestors -/

variable {root : Entity} {includeSelf : Bool}

/-- The set that a walk starts with. -/
theorem mem_start {x : EntityId} :
    x ∈ (if includeSelf then IdSet.ofList [root.id] else IdSet.empty) ↔
      includeSelf = true ∧ x = root.id := by
  cases includeSelf <;> simp

/-- A walk finds ancestors only, and stops at an ancestor only. -/
theorem within_ofEntity :
    match (ofEntity entities root includeSelf).result with
    | .ok closure => ∀ y ∈ closure,
        (entities.upsert root).Ancestor root.id y ∨ (includeSelf = true ∧ y = root.id)
    | .error y =>
        ((entities.upsert root).Ancestor root.id y ∨ (includeSelf = true ∧ y = root.id)) ∧
          ¬(entities.upsert root).Stored y := by
  rw [ofEntity]
  refine within_visit (fun x y hx hxy => .inl ?_) fun x hx => ?_
  · rcases hx with hx | ⟨-, rfl⟩
    · exact hx.tail hxy
    · exact .single hxy
  · rcases hx with hx | hx
    · exact .inr (mem_start.1 hx)
    · exact .inl (.single ⟨root, Table.find?_upsert_self root, hx⟩)

/-- A walk that ends with a result has gone through a graph that is stored, and no ancestor is
left out. -/
theorem ofEntity_ok (hresult : (ofEntity entities root includeSelf).result = .ok closure) :
    (entities.upsert root).Resolves root.id ∧
      ∀ y, (entities.upsert root).Ancestor root.id y ∨ (includeSelf = true ∧ y = root.id) →
        y ∈ closure := by
  rw [ofEntity] at hresult
  obtain ⟨hexplored, hmem⟩ :=
    explored_visit (Explored.start fun x hx => (mem_start.1 hx).2) hresult
  -- Nothing waits, so the result is closed under edges; the root's parents are in it.
  have hclosed : ∀ x y, x ∈ closure ∨ x = root.id → (entities.upsert root).Parent x y →
      y ∈ closure := by
    intro x y hx hxy
    simpa using hexplored.covered x y hx hxy
  have hreach : ∀ y, (entities.upsert root).Ancestor root.id y → y ∈ closure := by
    intro y hy
    induction hy with
    | single hxy => exact hclosed root.id _ (.inr rfl) hxy
    | tail _ hxy ih => exact hclosed _ _ (.inl ih) hxy
  refine ⟨⟨⟨root, Table.find?_upsert_self root⟩, fun y hy => hexplored.stored y (hreach y hy)⟩,
    fun y hy => ?_⟩
  rcases hy with hy | hy
  · exact hreach y hy
  · exact hmem y (.inl (mem_start.2 hy))

/-- **A walk finds the ancestors of its root**, in the graph in which the root stands for its own
stored record. -/
theorem isClosure_ofEntity (entities : Table Entity) (root : Entity) (includeSelf : Bool) :
    IsClosure (entities.upsert root) root.id includeSelf
      ((ofEntity entities root includeSelf).result.mapError .notFound) := by
  have hwithin := @within_ofEntity entities root includeSelf
  cases hresult : (ofEntity entities root includeSelf).result with
  | ok closure =>
    rw [hresult] at hwithin
    obtain ⟨hresolves, hmem⟩ := ofEntity_ok hresult
    refine ⟨⟨fun _ => hresolves, fun _ => ⟨closure, rfl⟩⟩, fun closure' h y => ?_, nofun⟩
    cases h
    exact ⟨hwithin y, hmem y⟩
  | error x =>
    rw [hresult] at hwithin
    obtain ⟨hx, hmissing⟩ := hwithin
    have hx : x = root.id ∨ (entities.upsert root).Ancestor root.id x :=
      hx.symm.imp_left And.right
    refine ⟨⟨fun ⟨_, h⟩ => (nomatch h), fun hresolves => absurd ?_ hmissing⟩, nofun, fun e he => ?_⟩
    · rcases hx with rfl | hx
      · exact hresolves.1
      · exact hresolves.2 x hx
    · cases he
      exact ⟨x, rfl, hx, hmissing⟩

end Walk

/-! ### Asking the graph -/

namespace Graph

variable (entities : Table Entity) (includeSelf : Bool)

/-- Without a memo, to resolve is to walk. -/
theorem resolve_memoless (root : Entity) :
    (resolve root includeSelf ⟨entities, none⟩).result =
        (Walk.ofEntity entities root includeSelf).result.mapError .notFound ∧
      (resolve root includeSelf ⟨entities, none⟩).state = ⟨entities, none⟩ := by
  simp only [resolve, Act.bind_apply, Act.get_apply, Act.recordAll_apply]
  cases (Walk.ofEntity entities root includeSelf).result with
  | ok closure => exact ⟨rfl, rfl⟩
  | error x => exact ⟨rfl, rfl⟩

/-- Without a memo, the ancestors of an entity at hand are resolved. -/
theorem ancestorsOf_memoless (entity : Entity) :
    (ancestorsOf entity includeSelf ⟨entities, none⟩).result =
        (Walk.ofEntity entities entity includeSelf).result.mapError .notFound ∧
      (ancestorsOf entity includeSelf ⟨entities, none⟩).state = ⟨entities, none⟩ :=
  resolve_memoless entities includeSelf entity

/-- What fetching an entity comes to. -/
theorem retrieve_apply (id : EntityId) (graph : Graph) :
    retrieve id graph =
      ⟨(graph.entities.find? id).elim (.error (.notFound id)) .ok, graph, [.fetched id]⟩ := by
  simp only [retrieve, Act.bind_apply, Act.record_apply, Act.get_apply]
  cases graph.entities.find? id with
  | some entity => rfl
  | none => rfl

/-- Without a memo, the ancestors of a stored entity are resolved. -/
theorem ancestors_memoless (id : EntityId) :
    (ancestors id includeSelf ⟨entities, none⟩).result =
        (entities.find? id).elim (.error (.notFound id)) (fun entity =>
          (Walk.ofEntity entities entity includeSelf).result.mapError .notFound) ∧
      (ancestors id includeSelf ⟨entities, none⟩).state = ⟨entities, none⟩ := by
  have hancestors : ancestors id includeSelf ⟨entities, none⟩ =
      (retrieve id >>= fun entity => resolve entity includeSelf) ⟨entities, none⟩ := rfl
  rw [hancestors, Act.bind_apply, retrieve_apply]
  cases entities.find? id with
  | none => exact ⟨rfl, rfl⟩
  | some entity => exact resolve_memoless entities includeSelf entity

/-- The ancestors of an entity at hand are those in the graph in which it stands for the stored
record of its identifier. -/
theorem isClosure_ancestorsOf (entity : Entity) :
    IsClosure (entities.upsert entity) entity.id includeSelf
      (ancestorsOf entity includeSelf ⟨entities, none⟩).result := by
  rw [(ancestorsOf_memoless entities includeSelf entity).1]
  exact Walk.isClosure_ofEntity entities entity includeSelf

/-- The ancestors of a stored entity are those in the graph. -/
theorem isClosure_ancestors (id : EntityId) :
    IsClosure entities id includeSelf (ancestors id includeSelf ⟨entities, none⟩).result := by
  rw [(ancestors_memoless entities includeSelf id).1]
  cases hfind : entities.find? id with
  | none =>
    have hmissing : ¬entities.Stored id := Table.not_stored.2 hfind
    refine ⟨⟨fun ⟨_, h⟩ => (nomatch h), fun hresolves => absurd hresolves.1 hmissing⟩, nofun,
      fun e he => ?_⟩
    cases he
    exact ⟨id, rfl, .inl rfl, hmissing⟩
  | some entity =>
    -- The stored record stands for itself already.
    obtain rfl : entity.id = id := Table.idOf_of_find? hfind
    have hclosure := Walk.isClosure_ofEntity entities entity includeSelf
    rwa [Table.upsert_of_find? hfind] at hclosure

/-- **Ancestor closures are exact reachability.** Without a memo, asking for the ancestors of an
identifier answers exactly when it and everything that can be reached from it is stored, with what
can be reached; and asking for those of an entity at hand does so in the graph in which that
entity stands for the stored record of its identifier. -/
theorem ancestors_exact :
    (∀ id, IsClosure entities id includeSelf (ancestors id includeSelf ⟨entities, none⟩).result) ∧
    (∀ entity : Entity, IsClosure (entities.upsert entity) entity.id includeSelf
      (ancestorsOf entity includeSelf ⟨entities, none⟩).result) :=
  ⟨isClosure_ancestors entities includeSelf, isClosure_ancestorsOf entities includeSelf⟩

end Graph
end PolicyDecision
