import PolicyDecision.Act
import PolicyDecision.Graph.Walk
import PolicyDecision.Memo

/-!
# The inheritance graph

The stored entities with what is remembered of their ancestors. Closures are remembered by the
identifier that they start from, so adding an edge or replacing an entity forgets all of them.
-/

namespace PolicyDecision

/-- Stored entities, and closures remembered by identifier and by whether they include it. -/
structure Graph where
  entities : Table Entity
  memo : Option (Memo (EntityId × Bool) (IdSet .entity)) := none

namespace Graph

def retrieve (id : EntityId) : Act Graph Entity := do
  Act.record (.fetched id)
  match (← get).entities.find? id with
  | some entity => return entity
  | none => throw (.notFound id)

/-- The closure that is remembered, which becomes the most recently used. -/
def remembered (id : EntityId) (includeSelf : Bool) : Act Graph (Option (IdSet .entity)) :=
  modifyGet fun graph =>
    match graph.memo with
    | none => (none, graph)
    | some memo =>
      let (hit, memo) := memo.get (id, includeSelf)
      (hit, { graph with memo := some memo })

/-- Remember a closure. -/
def remember (id : EntityId) (includeSelf : Bool) (closure : IdSet .entity) : Act Graph Unit :=
  modify fun graph =>
    { graph with memo := graph.memo.map (·.insert (id, includeSelf) closure) }

def invalidate : Act Graph Unit :=
  modify fun graph => { graph with memo := graph.memo.map Memo.clear }

/-- Walk from an entity and remember the closure. -/
def resolve (root : Entity) (includeSelf : Bool) : Act Graph (IdSet .entity) := do
  let walk := Walk.ofEntity (← get).entities root includeSelf
  Act.recordAll (walk.fetched.map fun id => .fetched id)
  match walk.result with
  | .error missing => throw (.notFound missing)
  | .ok closure =>
    Act.log (.ancestorsResolved closure.size root.id walk.fetched.length includeSelf)
    remember root.id includeSelf closure
    return closure

/-- The ancestors of a stored entity. -/
def ancestors (id : EntityId) (includeSelf : Bool) : Act Graph (IdSet .entity) := do
  match ← remembered id includeSelf with
  | some closure => return closure
  | none => resolve (← retrieve id) includeSelf

/-- The ancestors of an entity at hand, which is not fetched. -/
def ancestorsOf (entity : Entity) (includeSelf : Bool) : Act Graph (IdSet .entity) := do
  match ← remembered entity.id includeSelf with
  | some closure => return closure
  | none => resolve entity includeSelf

/-- Whether an entity is `target` or inherits from it. Parents are recognised without a walk. -/
def isSubOf (entity : Entity) (target : EntityId) : Act Graph Bool := do
  if entity.id = target ∨ target ∈ entity.parents then return true
  return target ∈ (← ancestorsOf entity false)

/-- Make `parent` a parent of the stored `target`. -/
def link (target parent : EntityId) : Act Graph Unit := do
  let graph ← get
  match graph.entities.find? target with
  | some entity => set { graph with entities := graph.entities.upsert (entity.addParent parent) }
  | none => throw (.notFound target)

/-- Make `parent` a parent of the stored `target` and forget what is remembered. -/
def addParent (target parent : EntityId) : Act Graph Unit := do
  link target parent
  invalidate
  Act.log (.edgeAdded target parent)

/-- Make `parent` a parent of a stored entity; the entity at hand with the parent. -/
def attachParent (entity : Entity) (parent : EntityId) : Act Graph Entity := do
  addParent entity.id parent
  return entity.addParent parent

/-- Put an entity into the store, replacing one of its identifier. -/
def put (entity : Entity) : Act Graph Unit :=
  modify fun graph => { graph with entities := graph.entities.upsert entity }

end Graph
end PolicyDecision
