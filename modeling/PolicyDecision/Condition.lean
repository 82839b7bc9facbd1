import PolicyDecision.Access
import PolicyDecision.Restrictor

/-!
# Conditions

A condition tree is the conjunction of its conditions, from left to right; the empty tree always
holds. A condition looks at the requester, the resource or the access of a request, asks a
custom operator, or combines trees.

In JSON a tree is an object with one key per condition. Since an object holds a key once, the
further conditions under a repeated key are written as trees of their own under `and`.
-/

namespace PolicyDecision

/-- One key of a condition tree; `List Condition` is a tree. -/
inductive Condition
  /-- The requester is accepted by a restrictor. -/
  | requester (restrictor : Restrictor)
  /-- The request is about this resource. -/
  | resourceId (id : ResourceId)
  /-- Every requested access is among these. -/
  | access (allowed : Access)
  | not (tree : List Condition)
  | nor (trees : List (List Condition))
  | or (trees : List (List Condition))
  | and (trees : List (List Condition))
  /-- A custom operator with its argument. -/
  | custom (name : String) (arg : Json)

/-- The conjunction of a list of conditions. -/
abbrev Tree := List Condition

namespace Condition

/-- The keys that are not custom operators. -/
def builtins : List String := ["requester", "resourceId", "access", "not", "nor", "or", "and"]

/-- The key a condition is written under. -/
def key : Condition → String
  | .requester _ => "requester"
  | .resourceId _ => "resourceId"
  | .access _ => "access"
  | .not _ => "not"
  | .nor _ => "nor"
  | .or _ => "or"
  | .and _ => "and"
  | .custom name _ => name

end Condition

/-! ### Equality

Structural, with the arguments of custom operators compared as values. -/

mutual

def Condition.same : Condition → Condition → Bool
  | .requester a, .requester b => a == b
  | .resourceId a, .resourceId b => a = b
  | .access a, .access b => a = b
  | .not a, .not b => Tree.same a b
  | .nor a, .nor b => Tree.sameList a b
  | .or a, .or b => Tree.sameList a b
  | .and a, .and b => Tree.sameList a b
  | .custom name a, .custom name' b => name = name' && a == b
  | _, _ => false

def Tree.same : List Condition → List Condition → Bool
  | [], [] => true
  | c :: cs, d :: ds => c.same d && Tree.same cs ds
  | _, _ => false

def Tree.sameList : List (List Condition) → List (List Condition) → Bool
  | [], [] => true
  | s :: ss, t :: ts => Tree.same s t && Tree.sameList ss ts
  | _, _ => false

end

instance : BEq Condition := ⟨Condition.same⟩

/-! ### Shadowed keys

A custom operator named like a built-in key is written like the built-in condition, so it must
be told from it before a tree's written form is taken for the tree. -/

mutual

/-- The first custom key at any depth of a condition that is named like a built-in one. -/
def Condition.shadowedBuiltin? : Condition → Option String
  | .requester restrictor => restrictor.shadowedBuiltin?
  | .not tree => Tree.shadowedBuiltin? tree
  | .nor trees | .or trees | .and trees => Tree.shadowedBuiltinList? trees
  | .custom name _ => if name ∈ Condition.builtins then some name else none
  | _ => none

/-- The first custom key at any depth of a tree that is named like a built-in one. -/
def Tree.shadowedBuiltin? : List Condition → Option String
  | [] => none
  | c :: cs => c.shadowedBuiltin?.or (Tree.shadowedBuiltin? cs)

def Tree.shadowedBuiltinList? : List (List Condition) → Option String
  | [] => none
  | t :: ts => (Tree.shadowedBuiltin? t).or (Tree.shadowedBuiltinList? ts)

end

/-! ### Reading -/

/-- Read the resource that a condition names. -/
def Condition.resourceOfJson : Json → Except PolicyFault Condition
  | .string text =>
    match Id.parse? .resource text with
    | some id => .ok (.resourceId id)
    | none => .error (.resourceId (.string text))
  | _ => .error .resourceIdType

/-- Read the accesses that a condition allows. -/
def Condition.accessOfJson (j : Json) : Except PolicyFault Condition :=
  match Access.ofJson? j with
  | some a => .ok (.access a)
  | none => .error .access

mutual

def Tree.ofJson : Json → Except PolicyFault Tree
  | .null => .ok []
  | .object fields => Tree.ofFields fields
  | j => .error (.tree j)

/-- Read the conditions of a tree, in the order of the fields. -/
def Tree.ofFields : List (String × Json) → Except PolicyFault Tree
  | [] => .ok []
  | (key, value) :: fields => do
    let condition ← match key with
      | "requester" => Condition.requester <$> Restrictor.ofJson value
      | "resourceId" => Condition.resourceOfJson value
      | "access" => Condition.accessOfJson value
      | "not" => Condition.not <$> Tree.ofJson value
      | "nor" => Condition.nor <$> Tree.listOfJson key value
      | "or" => Condition.or <$> Tree.listOfJson key value
      | "and" => Condition.and <$> Tree.listOfJson key value
      | name => pure (.custom name value)
    return condition :: (← Tree.ofFields fields)

/-- Read the trees under a key that takes a list of them. -/
def Tree.listOfJson (key : String) : Json → Except PolicyFault (List Tree)
  | .array items => Tree.ofItems items
  | j => .error (.subtrees key j)

def Tree.ofItems : List Json → Except PolicyFault (List Tree)
  | [] => .ok []
  | item :: items => do
    let tree ← Tree.ofJson item
    return tree :: (← Tree.ofItems items)

end

/-- Decode a tree from a document, which is read as a value first. -/
def Tree.decode (d : Document) : Decoded Tree := do
  (Tree.ofJson (← d.asJson)).mapError .policy

/-! ### Writing -/

namespace Tree

/-- The object under construction, and the fields that found their key taken. -/
def place (placed : List (String × Json) × List Json) (field : String × Json) :
    List (String × Json) × List Json :=
  if (placed.1.lookup field.1).isSome then
    (placed.1, placed.2 ++ [Json.single field.1 field.2])
  else (Fields.insert field.1 field.2 placed.1, placed.2)

/-- Write fields with possibly repeated keys as one object: the first of each key stays, the
others become objects of their own at the end of the list under `and`. -/
def objectOf (fields : List (String × Json)) : Json :=
  let (object, repeated) := fields.foldl place ([], [])
  if repeated.isEmpty then .object object else
  match object.lookup "and" with
  | some (.array items) => .object (Fields.insert "and" (.array (items ++ repeated)) object)
  | _ => .object (Fields.insert "and" (.array repeated) object)

end Tree

mutual

/-- The value a condition is written with. -/
def Condition.value : Condition → Json
  | .requester restrictor => restrictor.toJson
  | .resourceId id => .string (toString id)
  | .access allowed => allowed.toJson
  | .not tree => Tree.objectOf (Tree.fields tree)
  | .nor trees | .or trees | .and trees => .array (Tree.objects trees)
  | .custom _ arg => arg

/-- The conditions of a tree as fields, in order. -/
def Tree.fields : List Condition → List (String × Json)
  | [] => []
  | c :: cs => (c.key, c.value) :: Tree.fields cs

/-- The written forms of a list of trees. -/
def Tree.objects : List (List Condition) → List Json
  | [] => []
  | t :: ts => Tree.objectOf (Tree.fields t) :: Tree.objects ts

end

def Tree.toJson (t : Tree) : Json :=
  Tree.objectOf (Tree.fields t)

end PolicyDecision
