import PolicyDecision.Document.Decoding

/-!
# Configuration

Where documents are kept, and whether and how much is remembered between checks. Every part has
a default, and every part may be absent from the written form.
-/

namespace PolicyDecision

/-- Where documents are kept. -/
inductive DataProvider
  | memory
  | postgres (connectionString : String)
  deriving DecidableEq

/-- What is remembered of ancestors and compiled conditions. -/
structure CacheConfig where
  enabled : Bool := false
  /-- The number of entries that may be held; zero is no limit. -/
  maxLength : Nat := 10000
  /-- The number of entries dropped when there are too many. -/
  evictBatch : Nat := 1
  deriving DecidableEq

/-- The configuration of an engine. -/
structure Config where
  dataProvider : DataProvider := .memory
  tablePrefix : String := ""
  cache : CacheConfig := {}
  deriving DecidableEq

namespace DataProvider

/-- The providers by name. -/
inductive Variant
  | memory
  | postgres

/-- Read the name of a provider. -/
def Variant.decode (d : Document) : Decoded Variant := do
  match ← d.asString with
  | "memory" => .ok .memory
  | "postgres" => .ok .postgres
  | name => .error (.unknownVariant name ["memory", "postgres"])

/-- Decode what stands beside a provider's name. -/
def Variant.decodeRest (variant : Variant) (rest : Document) : Decoded DataProvider := do
  match variant with
  | .memory =>
    match rest with
    | .list (_ :: _) _ => .error .invalidLength
    | _ => .ok .memory
  | .postgres =>
    let columns : List (Document.Column (Option String)) :=
      [⟨"connectionString", fun _ d => some <$> d.asString⟩]
    let (draft, form) ← rest.asRecord .value columns none
    .postgres <$> form.required "connectionString" draft

/-- What has been read of a provider: its name, and the other fields in reverse. -/
structure Draft where
  variant : Option Variant := none
  rest : List (Option String × Document) := []

/-- Decode a provider: an object with its name under `type`, or a list that begins with it. -/
def decode : Document → Decoded DataProvider
  | .list [] closed => .error (if closed then .missingField "type" else .malformed)
  | .list (first :: rest) closed => do
    let variant ← Variant.decode first
    for part in rest do
      let _ ← part.asJson
    if closed then variant.decodeRest (.list rest true) else .error .malformed
  | .deep _ => .error .malformed
  | d => do
    let columns : List (Document.Column Draft) :=
      [⟨"type", fun draft d => do return { draft with variant := some (← Variant.decode d) }⟩]
    let draft ← d.asOpenRecord columns {} fun draft key part => do
      let _ ← part.asJson
      return { draft with rest := (some key, part) :: draft.rest }
    let variant ← Document.Form.fields.required "type" draft.variant
    variant.decodeRest (.object draft.rest.reverse true)

def toJson : DataProvider → Json
  | .memory => .ofFields [("type", .string "memory")]
  | .postgres connectionString =>
    .ofFields [("type", .string "postgres"), ("connectionString", .string connectionString)]

end DataProvider

namespace CacheConfig

def columns : List (Document.Column CacheConfig) :=
  [⟨"enabled", fun draft d => do return { draft with enabled := ← d.asBool }⟩,
   ⟨"maxLength", fun draft d => do return { draft with maxLength := ← d.asCount }⟩,
   ⟨"evictBatch", fun draft d => do return { draft with evictBatch := ← d.asCount }⟩]

def decode (source : Source) (d : Document) : Decoded CacheConfig :=
  Prod.fst <$> d.asRecord source columns {}

def toJson (c : CacheConfig) : Json :=
  .ofFields [("enabled", .bool c.enabled), ("maxLength", .int c.maxLength),
    ("evictBatch", .int c.evictBatch)]

end CacheConfig

namespace Config

def columns (source : Source) : List (Document.Column Config) :=
  [⟨"dataProvider", fun draft d => do return { draft with dataProvider := ← DataProvider.decode d }⟩,
   ⟨"tablePrefix", fun draft d => do return { draft with tablePrefix := ← d.asString }⟩,
   ⟨"cache", fun draft d => do return { draft with cache := ← CacheConfig.decode source d }⟩]

def decode (source : Source) (d : Document) : Decoded Config :=
  Prod.fst <$> d.asRecord source (columns source) {}

def toJson (c : Config) : Json :=
  .ofFields [("dataProvider", c.dataProvider.toJson), ("tablePrefix", .string c.tablePrefix),
    ("cache", c.cache.toJson)]

end Config
end PolicyDecision
