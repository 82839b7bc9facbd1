import PolicyDecision.Json

/-!
# Documents as written

A `Document` is JSON before it has become a value: fields stand in the order of the text, a name
may occur twice, and a text that breaks off or breaks the grammar leaves a document that is
whole up to that place. This is what decoding works on, so that of several faults in one input
the first one met is the one reported, whether it is a fault of the text or of its content.

`Document.ofJson` is the document of a value, and `Document.value?` reads a document into a
value again; it needs every part of the document to be sound. Parts that nobody reads are
`skippable` under a weaker condition: a number too large to hold and an unpaired surrogate, in a
string or in the name of a field, do no harm there, nor does nesting without bound.
-/

namespace PolicyDecision

/-- JSON as written, up to the first place that is not JSON. -/
inductive Document
  | null
  | bool (b : Bool)
  | number (n : Number)
  | string (s : String)
  /-- The items read, and whether the closing bracket was. -/
  | list (items : List Document) (closed : Bool)
  /-- The fields read, and whether the closing brace was. A name that is a string without a value
  is `none`. -/
  | object (fields : List (Option String × Document)) (closed : Bool)
  /-- A list or object nested deeper than is read. -/
  | deep (inner : Document)
  /-- A well-formed number or string that has no value: too large, or an unpaired surrogate. -/
  | unreadable
  /-- A place where no value could be read. -/
  | broken

namespace Document

/-! ### Values as documents -/

mutual

/-- The document of a value. -/
def ofJson : Json → Document
  | .null => .null
  | .bool b => .bool b
  | .number n => .number n
  | .string s => .string s
  | .array items => .list (ofItems items) true
  | .object fields => .object (ofFields fields) true

def ofItems : List Json → List Document
  | [] => []
  | item :: items => ofJson item :: ofItems items

def ofFields : List (String × Json) → List (Option String × Document)
  | [] => []
  | (key, value) :: fields => (some key, ofJson value) :: ofFields fields

end

/-! ### Documents as values -/

mutual

/-- The value that a document spells out, fields in the order of the text. -/
def raw? : Document → Option Json
  | .null => some .null
  | .bool b => some (.bool b)
  | .number n => some (.number n)
  | .string s => some (.string s)
  | .list items true => (rawItems? items).map .array
  | .object fields true => (rawFields? fields).map .object
  | _ => none

def rawItems? : List Document → Option (List Json)
  | [] => some []
  | item :: items => do return (← item.raw?) :: (← rawItems? items)

def rawFields? : List (Option String × Document) → Option (List (String × Json))
  | [] => some []
  | (key, value) :: fields => do return (← key, ← value.raw?) :: (← rawFields? fields)

end

/-- The value of a document, in normal form. -/
def value? (d : Document) : Option Json :=
  d.raw?.map Json.normalize

mutual

/-- Whether the text of the document follows the grammar to its end. -/
def skippable : Document → Bool
  | .list items closed => skippableItems items && closed
  | .object fields closed => skippableFields fields && closed
  | .deep inner => inner.skippable
  | .broken => false
  | _ => true

def skippableItems : List Document → Bool
  | [] => true
  | item :: items => item.skippable && skippableItems items

def skippableFields : List (Option String × Document) → Bool
  | [] => true
  | (_, value) :: fields => value.skippable && skippableFields fields

end

end Document
end PolicyDecision
