import PolicyDecision.Policy

/-!
# Policies in JSON

A selector is `"*"` or an object with an optional `resourceType` and `resourceOwner`. A reaction
is written as a boolean and may also be read from `"allow"` or `"deny"`. A policy that is
written without an identifier is given a fresh one, which the caller supplies.
-/

namespace PolicyDecision

/-! ### Selectors -/

namespace Selector

/-- Read the fields of a selector in order. -/
def ofFields (type : Option String) (owner : Option Restrictor) :
    List (String × Json) → Except PolicyFault Selector
  | [] => .ok (.matching type owner)
  | ("resourceType", value) :: fields =>
    match value with
    | .null => ofFields none owner fields
    | .string s => ofFields (some s) owner fields
    | _ => .error .selectorType
  | ("resourceOwner", value) :: fields =>
    match value with
    | .null => ofFields type none fields
    | value =>
      match Restrictor.ofJson value with
      | .ok restrictor => ofFields type (some restrictor) fields
      | .error cause => .error (.selectorOwner cause)
  | _ :: fields => ofFields type owner fields

def ofJson : Json → Except PolicyFault Selector
  | .object fields => ofFields none none fields
  | .string "*" => .ok .wildcard
  | j => .error (.selector j)

/-- Write a selector; what does not constrain is left out. -/
def toJson : Selector → Json
  | .wildcard => .string "*"
  | .matching type owner =>
    .ofFields ((type.map fun t => ("resourceType", Json.string t)).toList ++
      (owner.map fun r => ("resourceOwner", r.toJson)).toList)

/-- Decode a selector from a document, which is read as a value first. -/
def decode (d : Document) : Decoded Selector := do
  (ofJson (← d.asJson)).mapError .policy

end Selector

/-! ### Contents -/

def Reaction.decode : Document → Decoded Reaction
  | .null => .ok none
  | d => do
    match ← d.asJson with
    | .bool b => .ok (some b)
    | .string "allow" => .ok (some true)
    | .string "deny" => .ok (some false)
    | .string word => .error (.badReaction word)
    | _ => .error (.noVariant "ReactRepr")

namespace Content

/-- What has been read of a content; absent parts have defaults. -/
def columns : List (Document.Column Content) :=
  [⟨"check", fun draft d => do return { draft with check := ← Tree.decode d }⟩,
   ⟨"react", fun draft d => do return { draft with reaction := ← Reaction.decode d }⟩]

def decode (source : Source) (d : Document) : Decoded Content :=
  Prod.fst <$> d.asRecord source columns {}

/-- Write a content; a content that abstains has no `react`. -/
def toJson (c : Content) : Json :=
  .ofFields (("check", c.check.toJson) ::
    (c.reaction.map fun b => ("react", Json.bool b)).toList)

end Content

/-! ### Policies -/

namespace Policy

def columns (source : Source) : List (Document.Column Policy) :=
  [⟨"id", fun draft d => do return { draft with id := ← d.asId .policy }⟩,
   ⟨"selector", fun draft d => do
      return { draft with selector := ← d.asOption Selector.decode }⟩,
   ⟨"contents", fun draft d => do
      return { draft with contents := distinct (← d.asList (Content.decode source)) }⟩,
   ⟨"priority", fun draft d => do return { draft with priority := ← d.asInt32 }⟩]

/-- Decode a policy, which is called `fresh` if it is written without an identifier. -/
def decode (fresh : PolicyId) (source : Source) (d : Document) : Decoded Policy :=
  Prod.fst <$> d.asRecord source (columns source) { id := fresh }

/-- Write a policy; a policy without selector has no such field. -/
def toJson (p : Policy) : Json :=
  .ofFields (("id", .string (toString p.id)) ::
    (p.selector.map fun s => ("selector", s.toJson)).toList ++
    [("contents", .array (p.contents.map Content.toJson)), ("priority", .int p.priority)])

end Policy
end PolicyDecision
