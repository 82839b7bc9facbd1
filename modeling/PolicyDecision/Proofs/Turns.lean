import Mathlib.Algebra.GroupWithZero.Nat
import Mathlib.Data.List.Nodup
import PolicyDecision.Proofs.Reachability

/-!
# Walks, one turn at a time

A walk takes turns. Each turn takes the first identifier from the queue. If it was visited before, or is
the root, nothing else happens; the entity of any other is fetched, and its parents join the queue
(`Walk.Turn`). A turn says nothing about the order in which parents wait, so what holds of all turns does
not hang on the order in which a set is gone through.

* A turn takes one identifier from the queue, and an entity puts its parents there once. So there are no
  more turns than edges, whatever cycles there are (`Walk.Turns.le_edges`).
* What was fetched is what was visited, the root apart (`Walk.Logged`). So nothing is fetched twice.

`Walk.ofEntity` is such a walk (`Walk.turns_visit`), and what it fetches is what an operation that walks
leaves on its trail (`Walk.fetches_once`).
-/

namespace PolicyDecision

/-- The entities that were asked for, in order. -/
def Trail.fetches (trail : Trail) : List EntityId :=
  trail.filterMap fun
    | @Event.fetched .entity id => some id
    | _ => none

theorem Trail.fetches_map_fetched (ids : List EntityId) :
    Trail.fetches (ids.map fun id => .fetched id) = ids := by
  rw [fetches, List.filterMap_map]
  exact List.filterMap_some

theorem Trail.fetches_append (trail trail' : Trail) :
    Trail.fetches (trail ++ trail') = trail.fetches ++ trail'.fetches :=
  List.filterMap_append

namespace Walk

/-! ### Turns -/

/-- A walk under way: what was visited, what waits and what was fetched. -/
structure Underway where
  visited : IdSet .entity
  pending : List EntityId
  fetched : List EntityId

/-- A walk at its beginning, when the parents of the root wait in some order. -/
def begun (root : Entity) (includeSelf : Bool) (parents : List EntityId) : Underway :=
  ⟨if includeSelf then .ofList [root.id] else .empty, parents, []⟩

section

variable (entities : Table Entity) (root : EntityId)

/-- One turn of a walk. The parents that have not been visited wait in any order. -/
inductive Turn : Underway → Underway → Prop
  | seen {visited : IdSet .entity} {current : EntityId} {pending fetched : List EntityId}
      (h : current ∈ visited) :
      Turn ⟨visited, current :: pending, fetched⟩ ⟨visited, pending, fetched⟩
  | root {visited : IdSet .entity} {pending fetched : List EntityId} (h : root ∉ visited) :
      Turn ⟨visited, root :: pending, fetched⟩ ⟨visited.insert root, pending, fetched⟩
  | found {visited : IdSet .entity} {current : EntityId} {pending fetched joined : List EntityId}
      {node : Entity} (h : current ∉ visited) (hroot : current ≠ root)
      (hfind : entities.find? current = some node)
      (hjoined : joined.Perm (node.parents.toList.filter fun p => p ∉ visited.insert current)) :
      Turn ⟨visited, current :: pending, fetched⟩
        ⟨visited.insert current, pending ++ joined, fetched ++ [current]⟩

/-- The walk that ends here: nothing waits, or what is fetched next is not stored. -/
inductive Ends : Underway → Walk → Prop
  | done {visited : IdSet .entity} {fetched : List EntityId} :
      Ends ⟨visited, [], fetched⟩ ⟨fetched, .ok visited⟩
  | missing {visited : IdSet .entity} {current : EntityId} {pending fetched : List EntityId}
      (h : current ∉ visited) (hroot : current ≠ root) (hfind : entities.find? current = none) :
      Ends ⟨visited, current :: pending, fetched⟩ ⟨fetched ++ [current], .error current⟩

/-- So many turns, one after the other. -/
inductive Turns : Nat → Underway → Underway → Prop
  | none (way : Underway) : Turns 0 way way
  | more {n : Nat} {way way' way'' : Underway} (hturn : Turn entities root way way')
      (h : Turns n way' way'') : Turns (n + 1) way way''

/-- A walk under way takes a turn or ends. -/
theorem turn_or_ends (way : Underway) :
    (∃ way', Turn entities root way way') ∨ ∃ walk, Ends entities root way walk := by
  obtain ⟨visited, pending, fetched⟩ := way
  cases pending with
  | nil => exact .inr ⟨_, .done⟩
  | cons current pending =>
    by_cases hseen : current ∈ visited
    · exact .inl ⟨_, .seen hseen⟩
    · by_cases hroot : current = root
      · subst hroot
        exact .inl ⟨_, .root hseen⟩
      · cases hfind : entities.find? current with
        | none => exact .inr ⟨_, .missing hseen hroot hfind⟩
        | some node => exact .inl ⟨_, .found hseen hroot hfind (.refl _)⟩

end

/-! ### How many turns there are -/

/-- How many edges lead from entities that have not been visited. -/
def unvisitedEdges (entities : Table Entity) (visited : IdSet .entity) : Nat :=
  (entities.docs.map fun e => if e.id ∈ visited then 0 else e.parents.size).sum

/-- How many edges there are. -/
def edges (entities : Table Entity) : Nat :=
  (entities.docs.map fun e => e.parents.size).sum

/-- How many identifiers may still be taken from the queue. -/
def Underway.ahead (entities : Table Entity) (way : Underway) : Nat :=
  way.pending.length + unvisitedEdges entities way.visited

section Sum

variable {α : Type} {f g : α → Nat}

theorem sum_map_le (h : ∀ a, f a ≤ g a) (as : List α) : (as.map f).sum ≤ (as.map g).sum := by
  induction as with
  | nil => exact Nat.le_refl _
  | cons a as ih =>
    have := h a
    simp only [List.map_cons, List.sum_cons]
    omega

/-- Where one summand is less by `k`, so is the sum. -/
theorem sum_map_add_le (h : ∀ a, f a ≤ g a) {k : Nat} {a : α} (ha : f a + k ≤ g a) {as : List α}
    (hmem : a ∈ as) : (as.map f).sum + k ≤ (as.map g).sum := by
  induction as with
  | nil => cases hmem
  | cons b as ih =>
    simp only [List.map_cons, List.sum_cons]
    rcases List.mem_cons.1 hmem with rfl | hmem
    · have := sum_map_le h as
      omega
    · have := h b
      have := ih hmem
      omega

end Sum

variable {entities : Table Entity} {visited : IdSet .entity} {x : EntityId}

theorem unvisitedEdges_le (entities : Table Entity) (visited : IdSet .entity) :
    unvisitedEdges entities visited ≤ edges entities := by
  refine sum_map_le (fun e => ?_) _
  split
  · exact Nat.zero_le _
  · exact Nat.le_refl _

/-- A visit makes no edge unvisited. -/
theorem edges_insert_le (e : Entity) :
    (if e.id ∈ visited.insert x then 0 else e.parents.size) ≤
      if e.id ∈ visited then 0 else e.parents.size := by
  by_cases h : e.id ∈ visited
  · simp [h]
  · rw [if_neg h]
    split
    · exact Nat.zero_le _
    · exact Nat.le_refl _

theorem unvisitedEdges_insert_le (entities : Table Entity) (visited : IdSet .entity) (x : EntityId) :
    unvisitedEdges entities (visited.insert x) ≤ unvisitedEdges entities visited :=
  sum_map_le edges_insert_le _

/-- Visiting a stored entity for the first time uses its edges up. -/
theorem unvisitedEdges_insert_add_le {node : Entity} (hx : x ∉ visited)
    (hfind : entities.find? x = some node) :
    unvisitedEdges entities (visited.insert x) + node.parents.size ≤
      unvisitedEdges entities visited := by
  have hid : node.id = x := Table.idOf_of_find? hfind
  apply sum_map_add_le edges_insert_le _ (Table.mem_of_find? hfind)
  simp [hid, hx]

/-- **A turn uses up an edge.** -/
theorem Turn.ahead_lt {root : EntityId} {way way' : Underway} (h : Turn entities root way way') :
    way'.ahead entities < way.ahead entities := by
  cases h with
  | seen hseen =>
    simp only [Underway.ahead, List.length_cons]
    omega
  | @root visited pending fetched hseen =>
    have hedges := unvisitedEdges_insert_le entities visited root
    simp only [Underway.ahead, List.length_cons]
    omega
  | @found visited current pending fetched joined node hseen hroot hfind hjoined =>
    have hedges := unvisitedEdges_insert_add_le hseen hfind
    have hjoin : joined.length ≤ node.parents.size := by
      rw [hjoined.length_eq]
      exact List.length_filter_le _ _
    simp only [Underway.ahead, List.length_append, List.length_cons]
    omega

variable {root : Entity} {includeSelf : Bool} {n : Nat} {way way' : Underway}

theorem Turns.ahead_add_le (h : Turns entities root.id n way way') :
    way'.ahead entities + n ≤ way.ahead entities := by
  induction h with
  | none way => exact Nat.le_refl _
  | more hturn _ ih =>
    have := hturn.ahead_lt
    omega

/-- **There are no more turns than edges**, those of the root as it is at hand included. -/
theorem Turns.le_edges {order : List EntityId} (horder : order.Perm root.parents.toList)
    (h : Turns entities root.id n (begun root includeSelf order) way) :
    n ≤ root.parents.size + edges entities := by
  have hahead := h.ahead_add_le
  have hedges := unvisitedEdges_le entities (begun root includeSelf order).visited
  have hlength : order.length = root.parents.size := horder.length_eq
  simp only [Underway.ahead, begun] at hahead hedges
  omega

/-! ### What is fetched -/

/-- What was fetched is what was visited, the root apart; all of it is stored and, as what waits, can be
reached. -/
structure Logged (entities : Table Entity) (root : Entity) (way : Underway) : Prop where
  distinct : way.fetched.Nodup
  mem_iff : ∀ x, x ∈ way.fetched ↔ x ∈ way.visited ∧ x ≠ root.id
  stored : ∀ x ∈ way.fetched, entities.Stored x
  reached : ∀ x, x ∈ way.fetched ∨ x ∈ way.pending → (entities.upsert root).Ancestor root.id x

theorem logged_begun {order : List EntityId} (horder : order.Perm root.parents.toList) :
    Logged entities root (begun root includeSelf order) where
  distinct := List.nodup_nil
  mem_iff x := by
    refine iff_of_false List.not_mem_nil ?_
    rintro ⟨hx, hroot⟩
    exact hroot (mem_start.1 hx).2
  stored x hx := nomatch hx
  reached x hx := by
    rcases hx with hx | hx
    · cases hx
    · exact .single ⟨root, Table.find?_upsert_self root, horder.mem_iff.1 hx⟩

/-- **A turn fetches nothing a second time.** -/
theorem Logged.turn (h : Logged entities root way) (hturn : Turn entities root.id way way') :
    Logged entities root way' := by
  cases hturn with
  | seen hseen =>
    refine ⟨h.distinct, h.mem_iff, h.stored, fun x hx => h.reached x ?_⟩
    exact hx.imp_right (List.mem_cons_of_mem _)
  | root hseen =>
    refine ⟨h.distinct, fun x => ?_, h.stored, fun x hx => h.reached x ?_⟩
    · rw [h.mem_iff, IdSet.mem_insert]
      grind
    · exact hx.imp_right (List.mem_cons_of_mem _)
  | @found visited current pending fetched joined node hseen hroot hfind hjoined =>
    have hcurrent : (entities.upsert root).Ancestor root.id current :=
      h.reached current (.inr List.mem_cons_self)
    have hnew : current ∉ fetched := fun hmem => hseen ((h.mem_iff current).1 hmem).1
    refine ⟨?_, fun x => ?_, fun x hx => ?_, fun x hx => ?_⟩
    · rw [← List.concat_eq_append]
      exact h.distinct.concat hnew
    · have := h.mem_iff x
      rw [IdSet.mem_insert, List.mem_append, List.mem_singleton]
      grind
    · rcases List.mem_append.1 hx with hx | hx
      · exact h.stored x hx
      · rw [List.mem_singleton.1 hx]
        exact ⟨node, hfind⟩
    · rcases hx with hx | hx
      · rcases List.mem_append.1 hx with hx | hx
        · exact h.reached x (.inl hx)
        · rwa [List.mem_singleton.1 hx]
      · rcases List.mem_append.1 hx with hx | hx
        · exact h.reached x (.inr (List.mem_cons_of_mem _ hx))
        · -- The parents that join are reached over the entity that was fetched.
          have hparent : x ∈ node.parents := (List.mem_filter.1 (hjoined.mem_iff.1 hx)).1
          refine hcurrent.tail ⟨node, ?_, hparent⟩
          rw [Table.find?_upsert_of_ne hroot, hfind]

theorem Logged.turns (h : Logged entities root way) (hturns : Turns entities root.id n way way') :
    Logged entities root way' := by
  induction hturns with
  | none way => exact h
  | more hturn _ ih => exact ih (h.turn hturn)

/-- What the fetches of a walk must be: no entity twice, and not the root; all visited ones where the walk
has a result; and else the one that is not stored, after stored ones that can be reached. -/
structure FetchesOnce (entities : Table Entity) (root : Entity) (walk : Walk) : Prop where
  distinct : walk.fetched.Nodup
  not_root : root.id ∉ walk.fetched
  found : ∀ closure, walk.result = .ok closure → ∀ x, x ∈ walk.fetched ↔ x ∈ closure ∧ x ≠ root.id
  missing : ∀ x, walk.result = .error x → ∃ before, walk.fetched = before ++ [x] ∧
    ¬entities.Stored x ∧ ∀ y ∈ before, entities.Stored y ∧ (entities.upsert root).Ancestor root.id y

/-- **A walk that ends has fetched every entity once.** -/
theorem Ends.fetchesOnce {walk : Walk} (h : Ends entities root.id way walk)
    (hlogged : Logged entities root way) : FetchesOnce entities root walk := by
  cases h with
  | done =>
    refine ⟨hlogged.distinct, fun hmem => ?_, fun closure hclosure x => ?_, nofun⟩
    · exact ((hlogged.mem_iff _).1 hmem).2 rfl
    · cases hclosure
      exact hlogged.mem_iff x
  | @missing visited current pending fetched hseen hroot hfind =>
    have hnew : current ∉ fetched := fun hmem => hseen ((hlogged.mem_iff current).1 hmem).1
    refine ⟨?_, fun hmem => ?_, nofun, fun x hx => ?_⟩
    · rw [← List.concat_eq_append]
      exact hlogged.distinct.concat hnew
    · rcases List.mem_append.1 hmem with hmem | hmem
      · exact ((hlogged.mem_iff _).1 hmem).2 rfl
      · exact hroot (List.mem_singleton.1 hmem).symm
    · cases hx
      refine ⟨fetched, rfl, Table.not_stored.2 hfind, fun y hy => ?_⟩
      exact ⟨hlogged.stored y hy, hlogged.reached y (.inl hy)⟩

/-! ### The walk from an entity -/

/-- Visiting the identifiers of a queue is taking turns until the walk ends. -/
theorem turns_visit (entities : Table Entity) (root : EntityId) (visited : IdSet .entity)
    (pending fetched : List EntityId) :
    ∃ n way, Turns entities root n ⟨visited, pending, fetched⟩ way ∧
      Ends entities root way ⟨fetched ++ (visit entities root visited pending).fetched,
        (visit entities root visited pending).result⟩ := by
  induction visited, pending using visit.induct entities root generalizing fetched with
  | case1 visited =>
    rw [visit_nil, List.append_nil]
    exact ⟨0, _, .none _, .done⟩
  | case2 visited current pending hseen ih =>
    rw [visit_seen hseen]
    obtain ⟨n, way, hturns, hends⟩ := ih fetched
    exact ⟨n + 1, way, .more (.seen hseen) hturns, hends⟩
  | case3 visited pending hseen visited' ih =>
    rw [visit_root hseen]
    obtain ⟨n, way, hturns, hends⟩ := ih fetched
    exact ⟨n + 1, way, .more (.root hseen) hturns, hends⟩
  | case4 visited current pending hseen hroot hfind =>
    rw [visit_missing hseen hroot hfind]
    exact ⟨0, _, .none _, .missing hseen hroot hfind⟩
  | case5 visited current pending hseen visited' hroot node hfind ih =>
    rw [visit_found hseen hroot hfind]
    obtain ⟨n, way, hturns, hends⟩ := ih (fetched ++ [current])
    rw [List.append_assoc, List.singleton_append] at hends
    exact ⟨n + 1, way, .more (.found hseen hroot hfind (.refl _)) hturns, hends⟩

end Walk

/-- Resolving a closure fetches what its walk fetches. -/
theorem Graph.fetches_resolve (root : Entity) (includeSelf : Bool) (graph : Graph) :
    (resolve root includeSelf graph).trail.fetches =
      (Walk.ofEntity graph.entities root includeSelf).fetched := by
  simp only [resolve, Act.bind_apply, Act.get_apply, Act.recordAll_apply, Trail.fetches_append,
    Trail.fetches_map_fetched]
  -- What is left on the trail is the line that is logged where the walk has a result.
  cases (Walk.ofEntity graph.entities root includeSelf).result with
  | error x => exact List.append_nil _
  | ok closure => exact List.append_nil _

namespace Walk

/-- **A walk ends, and it fetches every entity once.** Over any entities, walking from a root comes to the
end of some turns, and what it fetches are the fetches on the trail. None is repeated and the root is not
among them. A walk with a result has fetched what is in it but for the root; any other stops at the first
entity that is not stored. In whatever order parents wait, there are no more turns than edges, and a walk
that takes no further turn ends and has fetched every entity once. -/
theorem fetches_once (entities : Table Entity) (root : Entity) (includeSelf : Bool) :
    let walk := ofEntity entities root includeSelf
    FetchesOnce entities root walk ∧
    (∀ memo, (Graph.resolve root includeSelf ⟨entities, memo⟩).trail.fetches = walk.fetched) ∧
    (∃ n way, Turns entities root.id n (begun root includeSelf root.parents.toList) way ∧
      Ends entities root.id way walk) ∧
    ∀ order, order.Perm root.parents.toList →
      ∀ n way, Turns entities root.id n (begun root includeSelf order) way →
        n ≤ root.parents.size + edges entities ∧
        ((∃ way', Turn entities root.id way way') ∨
          ∃ walk', Ends entities root.id way walk' ∧ FetchesOnce entities root walk') := by
  intro walk
  have hrun : ∃ n way, Turns entities root.id n (begun root includeSelf root.parents.toList) way ∧
      Ends entities root.id way walk := turns_visit entities root.id _ _ []
  refine ⟨?_, fun memo => Graph.fetches_resolve root includeSelf ⟨entities, memo⟩, hrun, ?_⟩
  · obtain ⟨n, way, hturns, hends⟩ := hrun
    exact hends.fetchesOnce ((logged_begun (.refl _)).turns hturns)
  · intro order horder n way hturns
    have hlogged : Logged entities root way := (logged_begun horder).turns hturns
    refine ⟨hturns.le_edges horder, (turn_or_ends entities root.id way).imp_right ?_⟩
    rintro ⟨walk', hends⟩
    exact ⟨walk', hends, hends.fetchesOnce hlogged⟩

/-- Two parents with a parent in common and an edge back to the root, where the second parent waits
first. -/
theorem fetches_once_reordered :
    let root : Entity := { id := ⟨⟨1⟩⟩, parents := .ofList [⟨⟨2⟩⟩, ⟨⟨3⟩⟩] }
    let entities : Table Entity := .ofList [root, { id := ⟨⟨2⟩⟩, parents := .ofList [⟨⟨4⟩⟩] },
      { id := ⟨⟨3⟩⟩, parents := .ofList [⟨⟨1⟩⟩, ⟨⟨4⟩⟩] }, { id := ⟨⟨4⟩⟩ }]
    let order : List EntityId := [⟨⟨3⟩⟩, ⟨⟨2⟩⟩]
    let visited : IdSet .entity := .ofList [⟨⟨1⟩⟩, ⟨⟨2⟩⟩, ⟨⟨3⟩⟩, ⟨⟨4⟩⟩]
    let fetched : List EntityId := [⟨⟨3⟩⟩, ⟨⟨2⟩⟩, ⟨⟨4⟩⟩]
    order.Perm root.parents.toList ∧
      Turns entities root.id 5 (begun root false order) ⟨visited, [], fetched⟩ ∧
      5 ≤ root.parents.size + edges entities ∧ FetchesOnce entities root ⟨fetched, .ok visited⟩ := by
  intro root entities order visited fetched
  have horder : order.Perm root.parents.toList := .swap _ _ _
  have hjoined : List.Perm [⟨⟨4⟩⟩, ⟨⟨1⟩⟩] ([⟨⟨1⟩⟩, ⟨⟨4⟩⟩] : List EntityId) := .swap _ _ _
  have hturns : Turns entities root.id 5 (begun root false order) ⟨visited, [], fetched⟩ := by
    refine .more (.found (by decide) (by decide) rfl hjoined) ?_
    refine .more (.found (by decide) (by decide) rfl (.refl _)) ?_
    refine .more (.found (by decide) (by decide) rfl (.refl _)) ?_
    refine .more (.root (by decide)) ?_
    refine .more (.seen (by decide)) ?_
    exact .none _
  obtain ⟨hle, hturn | ⟨walk, hends, honce⟩⟩ :=
    (fetches_once entities root false).2.2.2 order horder 5 _ hturns
  · obtain ⟨way, hturn⟩ := hturn
    cases hturn
  · cases hends
    exact ⟨horder, hturns, hle, honce⟩

end Walk
end PolicyDecision
