import PolicyDecision.Binary64
import PolicyDecision.Fields

/-!
# JSON values

A value as the program keeps it. An object of a value in normal form has strictly increasing
names, so it is visited and printed in one order whatever order it was written in; `normalize`
brings any value into that form, the last of several fields of one name winning.

Integers and floating-point numbers are different numbers: `1` is not `1.0`. Equality of values
(`==`) compares floating-point numbers as numbers, so the two zeros are equal, and is weaker
than `=` in this alone.
-/

namespace PolicyDecision

/-- A number: an integer that fits 64 bits, signed or unsigned, or a floating-point number. -/
inductive Number
  | int (n : Int)
  | float (x : Binary64)
  deriving DecidableEq

/-- Equality of numbers of the same kind. -/
def Number.sameValue : Number → Number → Bool
  | .int m, .int n => m = n
  | .float x, .float y => x.sameValue y
  | _, _ => false

/-- A JSON value. -/
inductive Json
  | null
  | bool (b : Bool)
  | number (n : Number)
  | string (s : String)
  | array (items : List Json)
  | object (fields : List (String × Json))

namespace Json

/-- The value of a field of an object. -/
def field? (j : Json) (key : String) : Option Json :=
  match j with
  | .object fields => fields.lookup key
  | _ => none

/-- An object with these fields; a later field replaces an earlier one of the same name. -/
def ofFields (fields : List (String × Json)) : Json :=
  .object (Fields.ofList fields)

/-- An object with one field. -/
def single (key : String) (value : Json) : Json :=
  .object [(key, value)]

/-- A list of strings. -/
def strings (names : List String) : Json :=
  .array (names.map .string)

/-- A count, or any other integer. -/
def int (n : Int) : Json :=
  .number (.int n)

/-! ### Normal form -/

mutual

/-- Every object has strictly increasing names. -/
def Normal : Json → Prop
  | .array items => NormalItems items
  | .object fields => Fields.Increasing fields ∧ NormalFields fields
  | _ => True

def NormalItems : List Json → Prop
  | [] => True
  | item :: items => item.Normal ∧ NormalItems items

def NormalFields : List (String × Json) → Prop
  | [] => True
  | (_, value) :: fields => value.Normal ∧ NormalFields fields

end

mutual

/-- The value with every object's names in order and each name once. -/
def normalize : Json → Json
  | .array items => .array (normalizeItems items)
  | .object fields => .object (Fields.ofList (normalizeFields fields))
  | j => j

def normalizeItems : List Json → List Json
  | [] => []
  | item :: items => item.normalize :: normalizeItems items

def normalizeFields : List (String × Json) → List (String × Json)
  | [] => []
  | (key, value) :: fields => (key, value.normalize) :: normalizeFields fields

end

/-! ### Equality of values -/

mutual

/-- Equality of values, number by number. -/
def sameValue : Json → Json → Bool
  | .null, .null => true
  | .bool a, .bool b => a == b
  | .number a, .number b => a.sameValue b
  | .string a, .string b => a == b
  | .array xs, .array ys => sameItems xs ys
  | .object xs, .object ys => sameFields xs ys
  | _, _ => false

def sameItems : List Json → List Json → Bool
  | [], [] => true
  | x :: xs, y :: ys => x.sameValue y && sameItems xs ys
  | _, _ => false

def sameFields : List (String × Json) → List (String × Json) → Bool
  | [], [] => true
  | (k, x) :: xs, (l, y) :: ys => k == l && x.sameValue y && sameFields xs ys
  | _, _ => false

end

instance : BEq Json := ⟨sameValue⟩

end Json
end PolicyDecision
