import PolicyDecision.Document.Decoding

/-!
# Restrictors

A restrictor says which entities a condition or a selector accepts: every entity, none (as the
owner of a selector: a resource without owner), or those that satisfy every clause of a list.

In JSON these are `"*"`, `"none"` and an object whose keys are the clauses. A list of restrictors
is their conjunction, which lets a key occur twice; it is written only then. A `"none"` anywhere
in a conjunction makes the whole of it `"none"`.
-/

namespace PolicyDecision

/-- One key of a restrictor. -/
inductive Clause
  /-- The entity itself. -/
  | id (target : EntityId)
  /-- The entity itself or one that inherits from it. -/
  | subOf (target : EntityId)
  /-- A custom operator with its argument. -/
  | custom (name : String) (arg : Json)

/-- Which entities are accepted. -/
inductive Restrictor
  | wildcard
  | noOwner
  | all (clauses : List Clause)

namespace Clause

/-- The keys that are not custom operators. -/
def builtins : List String := ["id", "subof"]

/-- The key a clause is written under. -/
def key : Clause → String
  | .id _ => "id"
  | .subOf _ => "subof"
  | .custom name _ => name

/-- The value a clause is written with. -/
def value : Clause → Json
  | .id target | .subOf target => .string (toString target)
  | .custom _ arg => arg

/-- Equality, with arguments compared as values. -/
def same : Clause → Clause → Bool
  | .id a, .id b => a = b
  | .subOf a, .subOf b => a = b
  | .custom name a, .custom name' b => name = name' && a == b
  | _, _ => false

instance : BEq Clause := ⟨same⟩

end Clause

namespace Restrictor

/-- Equality, with arguments compared as values. -/
def same : Restrictor → Restrictor → Bool
  | .wildcard, .wildcard => true
  | .noOwner, .noOwner => true
  | .all a, .all b => a == b
  | _, _ => false

instance : BEq Restrictor := ⟨same⟩

/-- Require a clause as well. What accepts no entity still accepts none. -/
def and (r : Restrictor) (clause : Clause) : Restrictor :=
  match r with
  | .wildcard => .all [clause]
  | .noOwner => .noOwner
  | .all clauses => .all (clauses ++ [clause])

/-- Whether every entity is accepted without looking at it. -/
def isWildcard : Restrictor → Bool
  | .wildcard => true
  | _ => false

/-- The first custom clause that is named like a built-in key. -/
def shadowedBuiltin? : Restrictor → Option String
  | .all clauses => clauses.findSome? fun
    | .custom name _ => if name ∈ Clause.builtins then some name else none
    | _ => none
  | _ => none

/-! ### Reading -/

/-- The entity that a clause names. -/
def target (key : String) : Json → Except PolicyFault EntityId
  | .string text =>
    match Id.parse? .entity text with
    | some id => .ok id
    | none => .error (.restrictorId key (.string text))
  | _ => .error (.restrictorIdType key)

/-- Whether a value is this string. -/
def isWord (word : String) : Json → Bool
  | .string s => s = word
  | _ => false

/-- The clauses of an object, or `none` where it accepts no entity. -/
def clausesOfFields : List (String × Json) → Except PolicyFault (Option (List Clause))
  | [] => .ok (some [])
  | (key, value) :: fields =>
    if key ∈ Clause.builtins ∧ isWord "*" value then clausesOfFields fields
    else if key = "id" ∧ isWord "none" value then .ok none
    else do
      let clause ←
        if key = "id" then Clause.id <$> target key value
        else if key = "subof" then Clause.subOf <$> target key value
        else pure (.custom key value)
      return (← clausesOfFields fields).map (clause :: ·)

mutual

def ofJson : Json → Except PolicyFault Restrictor
  | .null => .ok .wildcard
  | .string s =>
    if s = "*" then .ok .wildcard
    else if s = "none" then .ok .noOwner
    else .error (.restrictor (.string s))
  | .object fields => do return (← clausesOfFields fields).elim .noOwner .all
  | .array items => do return (← clausesOfItems items).elim .noOwner .all
  | j => .error (.restrictor j)

/-- The clauses of a list of restrictors, or `none` where one of them accepts no entity; what
follows that one is not read. -/
def clausesOfItems : List Json → Except PolicyFault (Option (List Clause))
  | [] => .ok (some [])
  | item :: items => do
    match ← ofJson item with
    | .wildcard => clausesOfItems items
    | .noOwner => return none
    | .all clauses => return (← clausesOfItems items).map (clauses ++ ·)

end

/-- Decode a restrictor from a document, which is read as a value first. -/
def decode (d : Document) : Decoded Restrictor := do
  (ofJson (← d.asJson)).mapError .policy

/-! ### Writing -/

/-- Write a restrictor: clauses as one object, or as a list of objects when a key repeats. -/
def toJson : Restrictor → Json
  | .wildcard => .string "*"
  | .noOwner => .string "none"
  | .all clauses =>
    if (clauses.map Clause.key).Nodup then .ofFields (clauses.map fun c => (c.key, c.value))
    else .array (clauses.map fun c => .single c.key c.value)

end Restrictor
end PolicyDecision
