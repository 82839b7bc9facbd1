import PolicyDecision.Condition.Predicate

/-!
# Compiled checks

Predicates are made of condition trees with the registered operators, and may be remembered by
the written form of the tree. A custom operator named like a built-in condition is written like
that condition, so when predicates are remembered such a tree is refused before its written form
is taken for it. Such an operator can never be registered, so without a memo the tree fails too.
-/

namespace PolicyDecision

/-- The registered operators, and predicates remembered by the written form of their trees. -/
structure Checks where
  registry : Registry := {}
  memo : Option (Memo String ContextPredicate) := none

namespace Checks

def make (tree : Tree) : Act Checks ContextPredicate := do
  Act.ofAudited (tree.compile (← get).registry)

/-- The predicate remembered for a written form, which becomes the most recently used. -/
def remembered (memo : Memo String ContextPredicate) (key : String) :
    Act Checks (Option ContextPredicate) := do
  let (hit, memo) := memo.get key
  modify fun checks => { checks with memo := some memo }
  return hit

/-- The predicate of a tree, from memory if it is there. -/
def compile (tree : Tree) : Act Checks ContextPredicate := do
  match (← get).memo with
  | none => make tree
  | some memo =>
    match Tree.shadowedBuiltin? tree with
    | some name => throw (.unknownOperator name)
    | none =>
      let key := tree.toJson.compact
      match ← remembered memo key with
      | some p => return p
      | none =>
        let p ← make tree
        modify fun checks => { checks with memo := checks.memo.map (·.insert key p) }
        return p

def invalidate : Act Checks Unit := do
  if let some memo := (← get).memo then
    Act.log (.checksCleared memo.size)
    modify fun checks => { checks with memo := some memo.clear }

/-! ### Registration -/

def registerEntityOps (ops : List (String × Factory Entity)) : Act Checks Unit :=
  (Operators.extend ops).zoom (·.registry.entityOps) fun entityOps checks =>
    { checks with registry := { checks.registry with entityOps } }

def registerContextOps (ops : List (String × Factory Context)) : Act Checks Unit :=
  (Operators.extend ops).zoom (·.registry.contextOps) fun contextOps checks =>
    { checks with registry := { checks.registry with contextOps } }

/-- Register operators for restrictors and forget every predicate, unless this fails. -/
def addEntityOps (ops : List (String × Factory Entity)) : Act Checks Unit := do
  registerEntityOps ops
  invalidate

/-- Register operators for conditions and forget every predicate, unless this fails. -/
def addContextOps (ops : List (String × Factory Context)) : Act Checks Unit := do
  registerContextOps ops
  invalidate

end Checks
end PolicyDecision
