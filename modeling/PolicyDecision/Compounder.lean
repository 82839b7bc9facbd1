import PolicyDecision.Policy

/-!
# Compounders

A compounder makes one verdict of the reactions of many policies. Its mode says when it is asked:
after each policy, once after the last one, or both. Each time it concludes with a verdict, lets
the run go on, or fails.

Two compounders have names. With `denyOverrides` any deny wins over every allow; with
`firstApplicable` the first policy that does not abstain decides.
-/

namespace PolicyDecision

/-- When a compounder is asked. -/
inductive Mode
  /-- After every policy. -/
  | each
  /-- Once, after the last policy. -/
  | conclude
  /-- After every policy and once more after the last. -/
  | all
  deriving DecidableEq

/-- Whether the compounder is asked after every policy. -/
def Mode.perPolicy : Mode → Bool
  | .each | .all => true
  | .conclude => false

/-- Whether the compounder is asked after the last policy. -/
def Mode.atEnd : Mode → Bool
  | .conclude | .all => true
  | .each => false

/-- What a compounder is shown. -/
structure Consultation where
  /-- Every candidate, in the order of evaluation. -/
  policies : List Policy
  /-- The reactions so far, the current one included. -/
  reactions : List Reaction
  /-- The place of the policy just evaluated; the number of policies on the final call. -/
  index : Nat
  /-- The reaction of the policy just evaluated; `none` on the final call. -/
  current : Reaction

namespace Consultation

/-- Whether this is the call after the last policy. -/
def isFinal (c : Consultation) : Bool :=
  c.policies.length ≤ c.index

def anyDenied (c : Consultation) : Bool :=
  c.reactions.contains (some false)

def anyAllowed (c : Consultation) : Bool :=
  c.reactions.contains (some true)

end Consultation

inductive Step
  | conclude (verdict : Bool)
  | proceed
  deriving DecidableEq

/-- A way to make one verdict of many reactions. -/
structure Compounder where
  mode : Mode
  compound : Consultation → Except Error Step

namespace Compounder

/-- Any deny wins, then any allow; otherwise there is no decision. -/
def denyOverrides : Compounder where
  mode := .all
  compound c :=
    if c.current = some false ∨ c.anyDenied then .ok (.conclude false)
    else if !c.isFinal then .ok .proceed
    else if c.anyAllowed then .ok (.conclude true)
    else .error .noDecision

/-- The first policy that does not abstain decides. -/
def firstApplicable : Compounder where
  mode := .each
  compound c := .ok <|
    match c.current with
    | some verdict => .conclude verdict
    | none => .proceed

end Compounder

/-- The compounders that have a name. -/
inductive CompounderKind
  | denyOverrides
  | firstApplicable
  deriving DecidableEq

namespace CompounderKind

def name : CompounderKind → String
  | .denyOverrides => "deny-overrides"
  | .firstApplicable => "first-applicable"

def compounder : CompounderKind → Compounder
  | .denyOverrides => .denyOverrides
  | .firstApplicable => .firstApplicable

def ofName? : String → Option CompounderKind
  | "deny-overrides" => some .denyOverrides
  | "first-applicable" => some .firstApplicable
  | _ => none

/-- Read the name of a compounder. -/
def parse (text : String) : Except InputFault CompounderKind :=
  match ofName? text with
  | some kind => .ok kind
  | none => .error (.compounder text)

theorem ofName?_name (kind : CompounderKind) : ofName? kind.name = some kind := by
  cases kind <;> rfl

theorem eq_name_of_ofName? {name : String} {kind : CompounderKind} (h : ofName? name = some kind) :
    name = kind.name := by
  unfold ofName? at h
  split at h
  · cases h
    rfl
  · cases h
    rfl
  · cases h

/-! ### Decoding -/

/-- Find a compounder by the name in a document. -/
def ofVariant (name : String) : Decoded CompounderKind :=
  match ofName? name with
  | some kind => .ok kind
  | none => .error (.unknownVariant name ["deny-overrides", "first-applicable"])

/-- The null that stands beside a name. -/
def unit : Document → Decoded Unit
  | .null => .ok ()
  | d => .error d.mismatch

/-- Decode a compounder's name: a string, or an object with that one key and null. Inside a text
the reader expects nothing else, and every other document is a fault of the text. -/
def decode : Source → Document → Decoded CompounderKind
  | _, .string name => ofVariant name
  | .value, .object [(some name, d)] _ => do
    let kind ← ofVariant name
    unit d
    return kind
  | .value, .object _ _ => .error .invalidValue
  | .value, d => .error d.mismatch
  | .text, .object ((some name, d) :: rest) closed => do
    let kind ← ofVariant name
    unit d
    if rest.isEmpty ∧ closed then .ok kind else .error .malformed
  | .text, _ => .error .malformed

end CompounderKind
end PolicyDecision
