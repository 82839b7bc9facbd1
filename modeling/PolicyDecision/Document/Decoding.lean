import PolicyDecision.Document.Reader
import PolicyDecision.Error
import PolicyDecision.IdSet

/-!
# Decoding documents

Typed values are decoded from documents part by part, in the order of the document, and the
first part that fails decides the error. A record is written as an object of named fields, whose
missing fields are noticed after all present ones are read, or as a list of its fields in order,
which may be shorter than the record when the remaining fields have defaults.

Inside a text, a list too long for its record is a fault of the text: the reader expected the
closing bracket. In a value it is a wrong length. `Source` tells the two apart.
-/

namespace PolicyDecision

/-- What decoding yields. -/
abbrev Decoded := Except DecodeError

/-- Where a document comes from. -/
inductive Source
  | value
  | text

namespace Document

/-- The error for a document that is not of the expected kind. -/
def mismatch : Document → DecodeError
  | .unreadable | .broken => .malformed
  | _ => .invalidType

/-- The value of a document. -/
def asJson (d : Document) : Decoded Json :=
  match d.value? with
  | some j => .ok j
  | none => .error .malformed

/-- Pass over a document that nothing reads. -/
def skip (d : Document) : Decoded Unit :=
  if d.skippable then .ok () else .error .malformed

def asString : Document → Decoded String
  | .string s => .ok s
  | d => .error d.mismatch

def asBool : Document → Decoded Bool
  | .bool b => .ok b
  | d => .error d.mismatch

/-- An integer within bounds. -/
def asInt (least greatest : Int) : Document → Decoded Int
  | .number (.int n) => if least ≤ n ∧ n ≤ greatest then .ok n else .error .invalidValue
  | d => .error d.mismatch

/-- A count that fits an unsigned 64-bit integer. -/
def asCount (d : Document) : Decoded Nat :=
  Int.toNat <$> d.asInt 0 0xFFFFFFFFFFFFFFFF

/-- A signed 32-bit integer. -/
def asInt32 (d : Document) : Decoded Int :=
  d.asInt (-0x80000000) 0x7FFFFFFF

/-- An identifier of a kind. -/
def asId (kind : Kind) (d : Document) : Decoded (Id kind) := do
  match Id.parse? kind (← d.asString) with
  | some id => .ok id
  | none => .error .badId

/-- Every item of a list, in order. -/
def asList {α : Type} (decode : Document → Decoded α) : Document → Decoded (List α)
  | .list items closed => do
    let values ← items.mapM decode
    if closed then .ok values else .error .malformed
  | .deep (.list _ _) => .error .malformed
  | d => .error d.mismatch

/-- A set of identifiers, written as a list that may repeat. -/
def asIdSet (kind : Kind) (d : Document) : Decoded (IdSet kind) :=
  IdSet.ofList <$> d.asList (asId kind)

/-- A part that is absent when it is null. -/
def asOption {α : Type} (decode : Document → Decoded α) : Document → Decoded (Option α)
  | .null => .ok none
  | d => some <$> decode d

/-! ### Records -/

/-- A field of a record: its name, and how its part of the document completes a draft. -/
structure Column (δ : Type) where
  name : String
  read : δ → Document → Decoded δ

/-- How a record was written. -/
inductive Form
  | fields
  | items

/-- Read named fields into a draft. `other` receives the fields that are no column. A name that
has no value is a fault of the text. -/
def readFields {δ : Type} (columns : List (Column δ)) (other : δ → String → Document → Decoded δ) :
    List String → δ → List (Option String × Document) → Decoded δ
  | _, draft, [] => .ok draft
  | _, _, (none, _) :: _ => .error .malformed
  | seen, draft, (some key, part) :: rest =>
    match columns.find? (·.name = key) with
    | some column => do
      if key ∈ seen then throw (.duplicateField key)
      let draft ← column.read draft part
      readFields columns other (key :: seen) draft rest
    | none => do
      let draft ← other draft key part
      readFields columns other seen draft rest

/-- Read a list of fields in order into a draft; the items that no column takes. -/
def readItems {δ : Type} : List (Column δ) → δ → List Document → Decoded (δ × List Document)
  | column :: columns, draft, part :: rest => do
    let draft ← column.read draft part
    readItems columns draft rest
  | _, draft, rest => .ok (draft, rest)

/-- Read a record whose unknown fields are ignored. -/
def asRecord {δ : Type} (source : Source) (columns : List (Column δ)) (empty : δ) :
    Document → Decoded (δ × Form)
  | .object fields closed => do
    let draft ← readFields columns (fun draft _ part => do part.skip; pure draft) [] empty fields
    if closed then .ok (draft, .fields) else .error .malformed
  | .list items closed => do
    let (draft, rest) ← readItems columns empty items
    match rest, closed, source with
    | [], true, _ => .ok (draft, .items)
    | _ :: _, true, .value => .error .invalidLength
    | _, _, _ => .error .malformed
  | .deep _ => .error .malformed
  | d => .error d.mismatch

/-- Read a record whose unknown fields belong to it. It has no list form. -/
def asOpenRecord {δ : Type} (columns : List (Column δ)) (empty : δ)
    (other : δ → String → Document → Decoded δ) : Document → Decoded δ
  | .object fields closed => do
    let draft ← readFields columns other [] empty fields
    if closed then .ok draft else .error .malformed
  | .deep (.object _ _) => .error .malformed
  | d => .error d.mismatch

/-- A field that a record cannot do without. -/
def Form.required {α : Type} (form : Form) (name : String) : Option α → Decoded α
  | some a => .ok a
  | none => .error (match form with | .fields => .missingField name | .items => .invalidLength)

end Document

/-- Decode a value. -/
def Json.decode {α : Type} (decode : Source → Document → Decoded α) (j : Json) : Decoded α :=
  decode .value (.ofJson j.normalize)

/-- Decode a text that holds one document and nothing else. -/
def decodeText {α : Type} (decode : Source → Document → Decoded α) (text : String) : Decoded α := do
  let (d, whole) := Document.read Document.depthLimit text
  let a ← decode .text d
  if whole then .ok a else .error .malformed

end PolicyDecision
