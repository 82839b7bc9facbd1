import PolicyDecision.Store

/-!
# Walks

The walk along parent edges that finds the ancestors of an entity. Identifiers wait in a queue
and are visited one by one: an identifier is visited once, its entity is fetched and its parents
join the queue. The root is never fetched; its parents are in the queue from the start.

The graph may have cycles and may name parents that are not stored. A walk ends because each
step visits a stored entity for the first time or shortens the queue (`unvisited_insert_lt`), and
it stops without a result at the first entity that is not stored.
-/

namespace PolicyDecision

/-- What a walk comes to: the entities asked for, in order, and the identifiers visited, or the
one that is not stored. -/
structure Walk where
  fetched : List EntityId
  result : Except EntityId (IdSet .entity)

namespace Walk

/-- How many stored entities have not been visited. -/
def unvisited (entities : Table Entity) (visited : IdSet .entity) : Nat :=
  (entities.docs.filter fun e => e.id ∉ visited).length

theorem filter_length_le {α : Type} {p q : α → Bool} (hpq : ∀ a, q a → p a) (as : List α) :
    (as.filter q).length ≤ (as.filter p).length := by
  induction as with
  | nil => simp
  | cons a as ih =>
    by_cases hq : q a
    · simp [hq, hpq a hq, ih]
    · by_cases hp : p a <;> simp [hq, hp] <;> omega

theorem filter_length_lt {α : Type} {p q : α → Bool} (hpq : ∀ a, q a → p a) {a : α}
    {as : List α} (ha : a ∈ as) (hp : p a) (hq : ¬q a) :
    (as.filter q).length < (as.filter p).length := by
  induction as with
  | nil => simp at ha
  | cons b as ih =>
    rcases List.mem_cons.1 ha with rfl | ha
    · have := filter_length_le hpq as
      simp [hq, hp]
      omega
    · have := ih ha
      by_cases hq : q b
      · simp [hq, hpq b hq, this]
      · by_cases hp : p b <;> simp [hq, hp] <;> omega

theorem unvisited_insert_le (entities : Table Entity) (visited : IdSet .entity) (x : EntityId) :
    unvisited entities (visited.insert x) ≤ unvisited entities visited :=
  filter_length_le (by simp) _

/-- Visiting a stored entity for the first time leaves one less to visit. -/
theorem unvisited_insert_lt {entities : Table Entity} {visited : IdSet .entity} {x : EntityId}
    {node : Entity} (hx : x ∉ visited) (h : entities.find? x = some node) :
    unvisited entities (visited.insert x) < unvisited entities visited := by
  have hid : node.id = x := by
    simpa [idOf] using List.find?_some h
  exact filter_length_lt (by simp) (List.mem_of_find?_eq_some h) (by simpa [hid] using hx)
    (by simp [hid])

/-- Visit the identifiers of a queue, and those that join it. -/
def visit (entities : Table Entity) (root : EntityId) (visited : IdSet .entity) :
    List EntityId → Walk
  | [] => ⟨[], .ok visited⟩
  | current :: pending =>
    if current ∈ visited then visit entities root visited pending
    else
      let visited' := visited.insert current
      if current = root then visit entities root visited' pending
      else
        match _found : entities.find? current with
        | none => ⟨[current], .error current⟩
        | some node =>
          let rest := visit entities root visited'
            (pending ++ node.parents.toList.filter fun p => p ∉ visited')
          { rest with fetched := current :: rest.fetched }
termination_by pending => (unvisited entities visited, pending.length)
decreasing_by
  · exact Prod.Lex.right _ (by simp)
  · rcases Nat.lt_or_eq_of_le (unvisited_insert_le entities visited current) with h | h
    · exact Prod.Lex.left _ _ h
    · rw [h]
      exact Prod.Lex.right _ (by simp)
  · exact Prod.Lex.left _ _ (unvisited_insert_lt ‹_› _found)

/-- The walk from an entity, whose own identifier counts as an ancestor if asked for. -/
def ofEntity (entities : Table Entity) (root : Entity) (includeSelf : Bool) : Walk :=
  visit entities root.id (if includeSelf then .ofList [root.id] else .empty)
    root.parents.toList

end Walk
end PolicyDecision
