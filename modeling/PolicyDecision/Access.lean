import PolicyDecision.Document.Decoding

/-!
# Accesses

What a request asks for and what a condition allows: one access name, or a list of them. A
single name and a list of that one name grant the same, but are not equal and are written
differently.
-/

namespace PolicyDecision

/-- One access name or several. -/
inductive Access
  | one (name : String)
  | many (names : List String)
  deriving DecidableEq

namespace Access

def names : Access → List String
  | .one name => [name]
  | .many names => names

/-- Whether `name` is one of the access names. -/
def contains (a : Access) (name : String) : Bool :=
  name ∈ a.names

/-- Whether every access name is also in `allowed`. -/
def isWithin (a allowed : Access) : Bool :=
  a.names.all allowed.contains

/-! ### JSON -/

/-- A string for one name, a list of strings for several. -/
def toJson : Access → Json
  | .one name => .string name
  | .many names => .strings names

/-- The strings of a list that holds nothing else. -/
def stringItems? : List Json → Option (List String)
  | [] => some []
  | .string s :: items => (stringItems? items).map (s :: ·)
  | _ => none

/-- Read either form. -/
def ofJson? : Json → Option Access
  | .string name => some (.one name)
  | .array items => (stringItems? items).map .many
  | _ => none

def decode (d : Document) : Decoded Access := do
  match ofJson? (← d.asJson) with
  | some a => .ok a
  | none => .error (.noVariant "Access")

end Access
end PolicyDecision
