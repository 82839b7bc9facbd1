import PolicyDecision.Condition.Predicate
import PolicyDecision.Proofs.Act

/-!
# What a condition tree means

The reading of a tree without predicates. `Tree.holds` goes through the tree itself and asks its
leaves as it reaches them: a tree is the conjunction of its conditions, `and` lists are
conjunctions, `or` lists disjunctions, `not` and `nor` negations, all from left to right. The
factory of a custom operator is looked up and run where the operator stands.

Whatever questions inherit from their parts, a tree inherits from its leaves
(`Tree.compositional_holds`).

A tree can only be made a predicate if none of its custom keys is at fault. `Tree.customKeys`
lists them in the order in which they are met, and `Registry.fault?` tells what is wrong with one.
-/

namespace PolicyDecision

/-! ### Asking custom operators -/

/-- Whether the operator of a name holds of a subject, its factory being run on the spot. -/
def Operators.ask {α : Type} (ops : Operators α) (name : String) (arg : Json) (subject : α) :
    Except Error Bool :=
  match ops.find? name with
  | none => .error (.unknownOperator name)
  | some factory => do (← factory arg) subject

/-- What is wrong with a custom key: its name is not registered, or its factory refuses its
argument. -/
def Operators.fault? {α : Type} (ops : Operators α) (name : String) (arg : Json) : Option Error :=
  match ops.find? name with
  | none => some (.unknownOperator name)
  | some factory =>
    match factory arg with
    | .ok _ => none
    | .error e => some e

/-! ### Restrictors -/

/-- Whether an entity satisfies a clause. -/
def Clause.holds (ops : Operators Entity) (entity : Entity) : Clause → Act Graph Bool
  | .id target => do
    Act.record (.reached (.clause (.id target)))
    return entity.id = target
  | .subOf target => do
    Act.record (.reached (.clause (.subOf target)))
    Graph.isSubOf entity target
  | .custom name arg => do
    Act.record (.reached (.clause (.custom name arg)))
    Act.record (.evaluated name arg)
    Act.ofExcept (ops.ask name arg entity)

/-- Whether an entity satisfies every clause of a list. -/
def Clause.allHold (ops : Operators Entity) (entity : Entity) : List Clause → Act Graph Bool
  | [] => return true
  | clause :: clauses => do
    if ← clause.holds ops entity then Clause.allHold ops entity clauses else return false

/-- Whether a restrictor accepts an entity. -/
def Restrictor.holds (ops : Operators Entity) (entity : Entity) : Restrictor → Act Graph Bool
  | .wildcard => return true
  | .noOwner => return false
  | .all clauses => Clause.allHold ops entity clauses

/-! ### Conditions and trees -/

mutual

/-- Whether a condition holds of a request. A wildcard does not ask who the requester is. -/
def Condition.holds (registry : Registry) (context : Context) : Condition → Act Inquiry Bool
  | .requester .wildcard => return true
  | .requester restrictor => do
    Act.record (.reached .requester)
    let entity ← Inquiry.fetchRequester context.requester
    Inquiry.onGraph (restrictor.holds registry.entityOps entity)
  | .resourceId id => do
    Act.record (.reached (.resourceId id))
    return context.resource = id
  | .access allowed => do
    Act.record (.reached (.access allowed))
    return context.access.isWithin allowed
  | .not tree => do return !(← Tree.holds registry context tree)
  | .nor trees => do return !(← Tree.anyHolds registry context trees)
  | .or trees => Tree.anyHolds registry context trees
  | .and trees => Tree.allHold registry context trees
  | .custom name arg => do
    Act.record (.reached (.custom name arg))
    Act.record (.evaluated name arg)
    Act.ofExcept (registry.contextOps.ask name arg context)

/-- Whether a tree holds: each of its conditions does. -/
def Tree.holds (registry : Registry) (context : Context) : List Condition → Act Inquiry Bool
  | [] => return true
  | condition :: conditions => do
    if ← condition.holds registry context then Tree.holds registry context conditions
    else return false

/-- Whether every tree of a list holds. -/
def Tree.allHold (registry : Registry) (context : Context) :
    List (List Condition) → Act Inquiry Bool
  | [] => return true
  | tree :: trees => do
    if ← Tree.holds registry context tree then Tree.allHold registry context trees
    else return false

/-- Whether a tree of a list holds. -/
def Tree.anyHolds (registry : Registry) (context : Context) :
    List (List Condition) → Act Inquiry Bool
  | [] => return false
  | tree :: trees => do
    if ← Tree.holds registry context tree then return true
    else Tree.anyHolds registry context trees

end

/-- Clauses are steady where asking for inheritance is. -/
theorem Clause.steady_holds_of {I : Graph → Prop} {entity : Entity}
    (hsub : ∀ target, Act.Steady I (Graph.isSubOf entity target)) (ops : Operators Entity)
    (clause : Clause) : Act.Steady I (clause.holds ops entity) := by
  cases clause with
  | id target =>
    rw [Clause.holds]
    exact (Act.steady_record _).bind fun _ => Act.steady_pure _
  | subOf target =>
    rw [Clause.holds]
    exact (Act.steady_record _).bind fun _ => hsub target
  | custom name arg =>
    rw [Clause.holds]
    apply (Act.steady_record _).bind
    intro _
    exact (Act.steady_record _).bind fun _ => Act.steady_ofExcept _

/-! ### What trees inherit from their leaves -/

section Compositional

/-- The condition combines no trees. -/
def Condition.IsLeaf : Condition → Prop
  | .requester _ | .resourceId _ | .access _ | .custom _ _ => True
  | .not _ | .nor _ | .or _ | .and _ => False

theorem Clause.compositional_allHold {P : Act Graph Bool → Prop} (hP : Act.Compositional P)
    {ops : Operators Entity} {entity : Entity} (h : ∀ clause : Clause, P (clause.holds ops entity))
    (clauses : List Clause) : P (Clause.allHold ops entity clauses) := by
  induction clauses with
  | nil =>
    rw [Clause.allHold]
    exact hP.pure true
  | cons clause clauses ih =>
    rw [Clause.allHold]
    apply hP.bind (h clause)
    intro holds
    cases holds with
    | true => exact ih
    | false => exact hP.pure false

theorem Restrictor.compositional_holds {P : Act Graph Bool → Prop} (hP : Act.Compositional P)
    {ops : Operators Entity} {entity : Entity} (h : ∀ clause : Clause, P (clause.holds ops entity))
    (restrictor : Restrictor) : P (restrictor.holds ops entity) := by
  cases restrictor with
  | wildcard =>
    rw [Restrictor.holds]
    exact hP.pure true
  | noOwner =>
    rw [Restrictor.holds]
    exact hP.pure false
  | all clauses =>
    rw [Restrictor.holds]
    exact Clause.compositional_allHold hP h clauses

variable {P : Act Inquiry Bool → Prop} {registry : Registry} {context : Context}

mutual

theorem Condition.compositional_holds (hP : Act.Compositional P)
    (h : ∀ leaf : Condition, leaf.IsLeaf → P (leaf.holds registry context)) :
    (condition : Condition) → P (condition.holds registry context)
  | .requester restrictor => h (.requester restrictor) trivial
  | .resourceId id => h (.resourceId id) trivial
  | .access allowed => h (.access allowed) trivial
  | .custom name arg => h (.custom name arg) trivial
  | .not tree => by
    rw [Condition.holds]
    exact hP.bind (Tree.compositional_holds hP h tree) fun b => hP.pure (!b)
  | .nor trees => by
    rw [Condition.holds]
    exact hP.bind (Tree.compositional_anyHolds hP h trees) fun b => hP.pure (!b)
  | .or trees => by
    rw [Condition.holds]
    exact Tree.compositional_anyHolds hP h trees
  | .and trees => by
    rw [Condition.holds]
    exact Tree.compositional_allHold hP h trees

/-- A tree whose leaves have a compositional property has it. -/
theorem Tree.compositional_holds (hP : Act.Compositional P)
    (h : ∀ leaf : Condition, leaf.IsLeaf → P (leaf.holds registry context)) :
    (tree : Tree) → P (Tree.holds registry context tree)
  | [] => by
    rw [Tree.holds]
    exact hP.pure true
  | condition :: conditions => by
    rw [Tree.holds]
    apply hP.bind (Condition.compositional_holds hP h condition)
    intro holds
    cases holds with
    | true => exact Tree.compositional_holds hP h conditions
    | false => exact hP.pure false

theorem Tree.compositional_allHold (hP : Act.Compositional P)
    (h : ∀ leaf : Condition, leaf.IsLeaf → P (leaf.holds registry context)) :
    (trees : List Tree) → P (Tree.allHold registry context trees)
  | [] => by
    rw [Tree.allHold]
    exact hP.pure true
  | tree :: trees => by
    rw [Tree.allHold]
    apply hP.bind (Tree.compositional_holds hP h tree)
    intro holds
    cases holds with
    | true => exact Tree.compositional_allHold hP h trees
    | false => exact hP.pure false

theorem Tree.compositional_anyHolds (hP : Act.Compositional P)
    (h : ∀ leaf : Condition, leaf.IsLeaf → P (leaf.holds registry context)) :
    (trees : List Tree) → P (Tree.anyHolds registry context trees)
  | [] => by
    rw [Tree.anyHolds]
    exact hP.pure false
  | tree :: trees => by
    rw [Tree.anyHolds]
    apply hP.bind (Tree.compositional_holds hP h tree)
    intro holds
    cases holds with
    | true => exact hP.pure true
    | false => exact Tree.compositional_anyHolds hP h trees

end

end Compositional

/-! ### Custom keys -/

/-- A custom operator with its argument, where it stands: among the clauses of a restrictor or
among the conditions of a tree. -/
inductive CustomKey
  | clause (name : String) (arg : Json)
  | condition (name : String) (arg : Json)

/-- What is wrong with a custom key, which is looked up among the operators for its place. -/
def Registry.fault? (registry : Registry) : CustomKey → Option Error
  | .clause name arg => registry.entityOps.fault? name arg
  | .condition name arg => registry.contextOps.fault? name arg

/-- The custom key of a clause, if it has one. -/
def Clause.customKeys : Clause → List CustomKey
  | .custom name arg => [.clause name arg]
  | _ => []

/-- The custom keys of a restrictor, in order. -/
def Restrictor.customKeys : Restrictor → List CustomKey
  | .all clauses => clauses.flatMap Clause.customKeys
  | _ => []

mutual

/-- The custom keys of a condition at any depth, from left to right. -/
def Condition.customKeys : Condition → List CustomKey
  | .requester restrictor => restrictor.customKeys
  | .resourceId _ | .access _ => []
  | .not tree => Tree.customKeys tree
  | .nor trees | .or trees | .and trees => Tree.customKeysOfEach trees
  | .custom name arg => [.condition name arg]

/-- The custom keys of a tree at any depth, from left to right. -/
def Tree.customKeys : List Condition → List CustomKey
  | [] => []
  | condition :: conditions => condition.customKeys ++ Tree.customKeys conditions

/-- The custom keys of a list of trees, from left to right. -/
def Tree.customKeysOfEach : List (List Condition) → List CustomKey
  | [] => []
  | tree :: trees => Tree.customKeys tree ++ Tree.customKeysOfEach trees

end

end PolicyDecision
