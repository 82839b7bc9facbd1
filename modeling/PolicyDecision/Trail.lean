import PolicyDecision.Compounder
import PolicyDecision.Text.Quoted

/-!
# Trails

What an operation does besides its result: the documents it fetches, the custom operators it
builds and evaluates, the leaves of conditions it reaches, the compounders it asks, and what it
logs. These are the events of a trail, in order. The wording of log lines stands here and nowhere
else.
-/

namespace PolicyDecision

inductive Level
  | debug
  | info
  | warn
  | error
  deriving DecidableEq

namespace Level

def name : Level → String
  | .debug => "DEBUG"
  | .info => "INFO"
  | .warn => "WARN"
  | .error => "ERROR"

/-- The level of a lower-case word. -/
def ofName? : String → Option Level
  | "debug" => some .debug
  | "info" => some .info
  | "warn" => some .warn
  | "error" => some .error
  | _ => none

def severity : Level → Nat
  | .debug => 0
  | .info => 1
  | .warn => 2
  | .error => 3

end Level

inductive Notice
  | engineReady (caching : Bool) (maxLength : Nat)
  | entityCreated (id : EntityId) (parents : Nat)
  | edgeAdded (target parent : EntityId)
  | ancestorsResolved (count : Nat) (root : EntityId) (fetches : Nat) (includeSelf : Bool)
  | checksCleared (count : Nat)
  | policyUpserted (id : PolicyId) (priority : Int)
  | permissionChecked (requester : EntityId) (access : Access) (resource : ResourceId)
  | candidatesFound (count : Nat) (resource : ResourceId) (type : String)
  | policyReacted (id : PolicyId) (priority : Int) (reaction : Reaction)
  | decidedBy (verdict : Bool) (requester : EntityId) (resource : ResourceId) (policy : PolicyId)
  | decidedAfter (verdict : Bool) (requester : EntityId) (resource : ResourceId) (policies : Nat)
  | undecided (requester : EntityId) (resource : ResourceId) (candidates : Nat)

namespace Notice

def level : Notice → Level
  | .engineReady .. | .decidedBy .. | .decidedAfter .. => .info
  | .undecided .. => .warn
  | _ => .debug

def reactionText : Reaction → String
  | none => "None"
  | some true => "Some(true)"
  | some false => "Some(false)"

def verdictText (verdict : Bool) : String :=
  if verdict then "granted" else "denied"

def text : Notice → String
  | .engineReady caching maxLength =>
    s!"PermitEngine initialized with cache={caching}, max_length={maxLength}"
  | .entityCreated id parents => s!"Created entity {id} with {parents} parents"
  | .edgeAdded target parent => s!"Added parent edge {target} -> {parent}"
  | .ancestorsResolved count root fetches includeSelf =>
    s!"Resolved {count} ancestors of {root} ({fetches} fetches, include_self={includeSelf})"
  | .checksCleared count => s!"Clearing {count} compiled checks"
  | .policyUpserted id priority => s!"Upserting policy {id} (priority={priority})"
  | .permissionChecked requester access resource =>
    let names := Text.quotedList access.names
    s!"Permission check: requester={requester}, access={names}, resource={resource}"
  | .candidatesFound count resource type =>
    s!"Found {count} relevant policies for resource {resource} (type={type})"
  | .policyReacted id priority reaction =>
    s!"Policy {id} (priority={priority}) reacted {reactionText reaction}"
  | .decidedBy verdict requester resource policy =>
    s!"Permission {verdictText verdict} for {requester} on {resource} by policy {policy}"
  | .decidedAfter verdict requester resource policies =>
    s!"Permission {verdictText verdict} for {requester} on {resource} after {policies} policies"
  | .undecided requester resource candidates =>
    s!"No policy decided access for {requester} on {resource} ({candidates} candidates)"

end Notice

/-- What the evaluation of a condition asks one at a time. -/
inductive Leaf
  /-- Who the requester is. -/
  | requester
  /-- Whether the requester satisfies a clause. -/
  | clause (clause : Clause)
  | resourceId (id : ResourceId)
  | access (allowed : Access)
  /-- A custom operator with its argument. -/
  | custom (name : String) (arg : Json)

/-- Something that an operation does besides its result. -/
inductive Event
  /-- A document was asked for; it may have been missing. -/
  | fetched {kind : Kind} (id : Id kind)
  /-- The candidates for a resource were asked for. -/
  | searched
  /-- A custom operator was built for an argument. -/
  | built (name : String) (arg : Json)
  /-- A custom operator was evaluated. -/
  | evaluated (name : String) (arg : Json)
  /-- A leaf was evaluated. -/
  | reached (leaf : Leaf)
  /-- A compounder was asked. -/
  | consulted (input : Consultation)
  | logged (notice : Notice)

/-- Events in the order in which they happened. -/
abbrev Trail := List Event

end PolicyDecision
