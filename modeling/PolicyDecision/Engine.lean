import PolicyDecision.Evaluation
import PolicyDecision.Relevance
import PolicyDecision.Request

/-!
# The engine

An engine keeps the documents, the registered operators and what is remembered of ancestors and
compiled checks, and decides requests. Whatever changes the documents through the engine makes
it forget what may no longer be true. A new entity cannot be remembered yet, so creating one
forgets nothing; a batch of operators that fails forgets nothing either.
-/

namespace PolicyDecision

/-- Documents, operators and memories. -/
structure Engine where
  config : Config
  graph : Graph
  resources : Table Resource
  policies : Table Policy
  checks : Checks

namespace Engine

variable {α : Type}

/-! ### Construction -/

/-- An engine over a store. -/
def new (store : Store) (config : Config) (registry : Registry) : Engine where
  config
  graph := ⟨store.entities, Memo.ofConfig config.cache⟩
  resources := store.resources
  policies := store.policies
  checks := ⟨registry, Memo.ofConfig config.cache⟩

/-- Start an engine over a store. -/
def start (store : Store) (config : Config) (registry : Registry) : Audited Engine := do
  Act.log (.engineReady config.cache.enabled config.cache.maxLength)
  return new store config registry

/-- Start an engine over the store that the configuration asks for. -/
def ofConfig (config : Config) (registry : Registry) : Audited Engine := do
  match config.dataProvider with
  | .memory => start {} config registry
  | .postgres _ => throw (.config .unavailable)

def store (engine : Engine) : Store :=
  ⟨engine.graph.entities, engine.resources, engine.policies⟩

def onGraph (x : Act Graph α) : Act Engine α :=
  x.zoom graph fun graph engine => { engine with graph }

/-- Work on the compiled checks. -/
def onChecks (x : Act Checks α) : Act Engine α :=
  x.zoom checks fun checks engine => { engine with checks }

/-! ### Entities -/

def retrieveEntity (id : EntityId) : Act Engine Entity :=
  onGraph (Graph.retrieve id)

/-- Create an entity with an identifier that is not in use. -/
def createEntity (fresh : EntityId) (parents : IdSet .entity) : Act Engine Entity := do
  let entity : Entity := { id := fresh, parents }
  onGraph (Graph.put entity)
  Act.log (.entityCreated fresh parents.size)
  return entity

/-- Put an entity into the store, replacing one of its identifier. -/
def upsertEntity (entity : Entity) : Act Engine Unit :=
  onGraph do
    Graph.put entity
    Graph.invalidate

/-- Make `parent` a parent of `target`. -/
def addParent (target parent : EntityId) : Act Engine Unit :=
  onGraph (Graph.addParent target parent)

/-- The ancestors of a stored entity. -/
def ancestors (id : EntityId) (includeSelf : Bool) : Act Engine (IdSet .entity) :=
  onGraph (Graph.ancestors id includeSelf)

/-! ### Resources -/

def retrieveResource (id : ResourceId) : Act Engine Resource := do
  Act.record (.fetched id)
  match (← get).resources.find? id with
  | some resource => return resource
  | none => throw (.notFound id)

/-- Put a resource into the store, replacing one of its identifier. -/
def upsertResource (resource : Resource) : Act Engine Unit :=
  modify fun engine => { engine with resources := engine.resources.upsert resource }

/-- Remove a resource, if it is there. -/
def deleteResource (id : ResourceId) : Act Engine Unit :=
  modify fun engine => { engine with resources := engine.resources.erase id }

/-! ### Policies -/

def retrievePolicy (id : PolicyId) : Act Engine Policy := do
  Act.record (.fetched id)
  match (← get).policies.find? id with
  | some policy => return policy
  | none => throw (.notFound id)

/-- Put a policy into the store, replacing one of its identifier. -/
def putPolicy (policy : Policy) : Act Engine Unit :=
  modify fun engine => { engine with policies := engine.policies.upsert policy }

/-- Put a policy into the store and forget compiled checks. -/
def upsertPolicy (policy : Policy) : Act Engine Unit := do
  Act.log (.policyUpserted policy.id policy.priority)
  putPolicy policy
  onChecks Checks.invalidate

/-- Remove a policy, if it is there, and forget compiled checks. -/
def deletePolicy (id : PolicyId) : Act Engine Unit := do
  modify fun engine => { engine with policies := engine.policies.erase id }
  onChecks Checks.invalidate

/-- The policies that are asked about a resource, the highest priority first. A store need not
find them in this order. -/
def candidates (resource : Resource) : Act Engine (List Policy) := do
  let relevance ← onGraph (Graph.relevance resource)
  Act.record .searched
  let policies := Policy.byPriority (relevance.candidates (← get).policies.docs)
  Act.log (.candidatesFound policies.length resource.id resource.type)
  return policies

/-! ### Operators and checks -/

def addEntityOps (ops : List (String × Factory Entity)) : Act Engine Unit :=
  onChecks (Checks.addEntityOps ops)

def addContextOps (ops : List (String × Factory Context)) : Act Engine Unit :=
  onChecks (Checks.addContextOps ops)

/-- Make a predicate of a restrictor. -/
def compileRestrictor (restrictor : Restrictor) : Act Engine EntityPredicate := do
  Act.ofAudited (restrictor.compile (← get).checks.registry.entityOps)

/-- Make a predicate of a condition tree. -/
def compileCheck (tree : Tree) : Act Engine ContextPredicate :=
  onChecks (Checks.compile tree)

/-! ### Decisions -/

/-- What evaluation works on, when the requester may be at hand. -/
def evaluation (requester : Option Entity) (engine : Engine) : Evaluation :=
  ⟨engine.checks, ⟨engine.graph, requester⟩⟩

/-- The engine after an evaluation. -/
def resume (evaluation : Evaluation) (engine : Engine) : Engine :=
  { engine with checks := evaluation.checks, graph := evaluation.inquiry.graph }

/-- The resource of a request. A document is used as it is given. -/
def resolve : ResourceRef → Act Engine Resource
  | .byId id => retrieveResource id
  | .given resource => return resource

/-- Decide a request. -/
def check (request : Request) (compounder : Compounder) : Act Engine Bool := do
  let resource ← resolve request.resource
  Act.log (.permissionChecked request.requester request.access resource.id)
  let context : Context := ⟨request.requester, request.access, resource.id⟩
  let policies ← candidates resource
  (compounder.decide context policies).zoom (evaluation none) resume

end Engine
end PolicyDecision
