import PolicyDecision.Config
import PolicyDecision.Text.Blank

/-!
# Configuration from variables

The configuration that named variables give, for the command line. The connection string is
looked up only for the provider that needs it. Blanks around a flag or a count do not matter,
nor does the case of a flag.
-/

namespace PolicyDecision.Config

/-- The variables that are looked up. -/
def variableNames : List String :=
  ["IPERMIT_DATA_PROVIDER", "IPERMIT_DATABASE_URL", "IPERMIT_TABLE_PREFIX",
   "IPERMIT_CACHE_ENABLED", "IPERMIT_CACHE_MAX_LENGTH", "IPERMIT_CACHE_EVICT_BATCH"]

/-- Read a flag. -/
def parseFlag (key text : String) : Except ConfigFault Bool :=
  let word := String.ofList ((Text.trim text).map Char.toLower)
  if word ∈ ["1", "true", "yes", "on"] then .ok true
  else if word ∈ ["0", "false", "no", "off"] then .ok false
  else .error (.flag key word)

/-- Append digits to a count as long as it fits 64 bits. -/
def appendDigits (n : Nat) : List Char → Except CountFault Nat
  | [] => .ok n
  | c :: cs =>
    if c.isDigit then
      let n' := 10 * n + (c.toNat - '0'.toNat)
      if n' < Nat.pow 2 64 then appendDigits n' cs else .error .tooLarge
    else .error .badDigit

/-- Read a count: decimal digits, behind at most one plus sign. -/
def parseCount : List Char → Except CountFault Nat
  | [] => .error .empty
  | '+' :: c :: cs => appendDigits 0 (c :: cs)
  | cs => appendDigits 0 cs

/-- Read a count from a variable. -/
def count (key text : String) : Except ConfigFault Nat :=
  (parseCount (Text.trim text)).mapError (.count key)

/-- The provider that the variables name. -/
def providerOf (lookup : String → Option String) : Except ConfigFault DataProvider :=
  match lookup "IPERMIT_DATA_PROVIDER" with
  | none | some "memory" => .ok .memory
  | some "postgres" =>
    match lookup "IPERMIT_DATABASE_URL" with
    | some url => .ok (.postgres url)
    | none => .error .databaseUrl
  | some name => .error (.provider name)

/-- Read an optional variable. -/
def optional {α : Type} (lookup : String → Option String) (key : String)
    (read : String → String → Except ConfigFault α) (default : α) : Except ConfigFault α :=
  match lookup key with
  | some text => read key text
  | none => .ok default

/-- The configuration that variables give. -/
def ofVariables (lookup : String → Option String) : Except ConfigFault Config := do
  let dataProvider ← providerOf lookup
  let tablePrefix := (lookup "IPERMIT_TABLE_PREFIX").getD ""
  let enabled ← optional lookup "IPERMIT_CACHE_ENABLED" parseFlag false
  let maxLength ← optional lookup "IPERMIT_CACHE_MAX_LENGTH" count 10000
  let evictBatch ← optional lookup "IPERMIT_CACHE_EVICT_BATCH" count 1
  return { dataProvider, tablePrefix, cache := { enabled, maxLength, evictBatch } }

end PolicyDecision.Config
