import PolicyDecision.Id
import PolicyDecision.Json.Printer

/-!
# Errors

Every error is a cause; the wording of each cause stands here and nowhere else. Faults of
policies, of decoding, of inputs and of configuration have a type of their own, because code
that can only fail in one of these ways says so in its type.
-/

namespace PolicyDecision

/-- What is wrong with a policy, a condition tree, a restrictor or a selector. -/
inductive PolicyFault
  | restrictor (found : Json)
  | restrictorIdType (key : String)
  | restrictorId (key : String) (found : Json)
  | resourceIdType
  | resourceId (found : Json)
  | access
  | subtrees (key : String) (found : Json)
  | tree (found : Json)
  | selector (found : Json)
  | selectorType
  | selectorOwner (cause : PolicyFault)
  | operator (message : String)

def PolicyFault.message : PolicyFault → String
  | .restrictor found => s!"invalid restrictor: {found.compact}"
  | .restrictorIdType key => s!"restrictor '{key}' expects an entity id string"
  | .restrictorId key found => s!"restrictor '{key}' expects an entity id, got {found.compact}"
  | .resourceIdType => "resourceId expects an id string"
  | .resourceId found => s!"resourceId expects a resource id, got {found.compact}"
  | .access =>
    "access expects a string or list: data did not match any variant of untagged enum Access"
  | .subtrees key found => s!"'{key}' expects a list of conditions, got {found.compact}"
  | .tree found => s!"condition tree must be an object, got {found.compact}"
  | .selector found => s!"invalid selector: {found.compact}"
  | .selectorType => "invalid selector: invalid type"
  | .selectorOwner cause => s!"invalid selector: Invalid policy: {cause.message}"
  | .operator message => message

/-- Why a document could not be decoded. -/
inductive DecodeError
  /-- The text is not JSON. -/
  | malformed
  | missingField (name : String)
  | duplicateField (name : String)
  | unknownVariant (found : String) (expected : List String)
  /-- A value has none of the forms that a type admits. -/
  | noVariant (type : String)
  /-- A string is no identifier. -/
  | badId
  | invalidType
  | invalidValue
  | invalidLength
  | badReaction (word : String)
  | policy (fault : PolicyFault)

def DecodeError.message : DecodeError → String
  | .malformed => "malformed JSON"
  | .missingField name => s!"missing field `{name}`"
  | .duplicateField name => s!"duplicate field `{name}`"
  | .unknownVariant found expected =>
    let choices := " or ".intercalate (expected.map fun name => s!"`{name}`")
    s!"unknown variant `{found}`, expected {choices}"
  | .noVariant type => s!"data did not match any variant of untagged enum {type}"
  | .badId => "UUID parsing failed"
  | .invalidType => "invalid type"
  | .invalidValue => "invalid value"
  | .invalidLength => "invalid length"
  | .badReaction word => s!"react must be a boolean, 'allow' or 'deny', got '{word}'"
  | .policy fault => s!"Invalid policy: {fault.message}"

/-- What is wrong with an argument. -/
inductive InputFault
  | id (kind : Kind) (text : String)
  | reserved (name : String)
  | compounder (name : String)
  | operator (message : String)

def InputFault.message : InputFault → String
  | .id kind text => s!"invalid {kind.name} id '{text}'"
  | .reserved name => s!"'{name}' is a built-in operator and cannot be overridden"
  | .compounder name => s!"unknown compounder: {name}"
  | .operator message => message

/-- Why a text is no count. -/
inductive CountFault
  | empty
  | badDigit
  | tooLarge

def CountFault.message : CountFault → String
  | .empty => "cannot parse integer from empty string"
  | .badDigit => "invalid digit found in string"
  | .tooLarge => "number too large to fit in target type"

/-- What is wrong with the configuration. -/
inductive ConfigFault
  | databaseUrl
  | provider (name : String)
  | flag (key : String) (found : String)
  | count (key : String) (fault : CountFault)
  /-- The store that is asked for is not part of this program. -/
  | unavailable

def ConfigFault.message : ConfigFault → String
  | .databaseUrl => "IPERMIT_DATABASE_URL is required for the postgres provider"
  | .provider name => s!"Unknown data provider: {name}"
  | .flag key found => s!"{key} must be a boolean, got '{found}'"
  | .count key fault => s!"{key} must be a number: {fault.message}"
  | .unavailable => "the postgres data provider requires the `postgres` feature"

/-- Why an operation failed. -/
inductive Error
  | notFound {kind : Kind} (id : Id kind)
  | unknownOperator (name : String)
  /-- Every candidate policy abstained, or there was none. -/
  | noDecision
  | invalidCompounder (message : String)
  | invalidInput (fault : InputFault)
  | invalidPolicy (fault : PolicyFault)
  | config (fault : ConfigFault)
  | serialization (cause : DecodeError)
  /-- A file could not be read, or does not hold text. -/
  | io

def Error.message : Error → String
  | @notFound kind id => s!"{kind.name} not found: {id.uuid}"
  | .unknownOperator name => s!"Unknown operator: {name}"
  | .noDecision => "No policy reacted; ensure at least one fallback policy is provided"
  | .invalidCompounder message => s!"Invalid compounder: {message}"
  | .invalidInput fault => s!"Invalid input: {fault.message}"
  | .invalidPolicy fault => s!"Invalid policy: {fault.message}"
  | .config fault => s!"Configuration error: {fault.message}"
  | .serialization cause => s!"Serialization error: {cause.message}"
  | .io => "I/O error"

end PolicyDecision
