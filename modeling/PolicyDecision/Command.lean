import PolicyDecision.Command.Arguments
import PolicyDecision.Command.Log
import PolicyDecision.Command.Query
import PolicyDecision.Config.Variables
import PolicyDecision.Engine
import PolicyDecision.File

/-!
# The command

The command decides one query against a snapshot and reports the outcome in its exit status: 0
for an allowance, 1 for a denial, 2 when no policy reached a decision. Invalid arguments give 64;
every other failure gives 1 with a message. The configuration comes from variables, and a
compounder named in the arguments goes before the one that the query names.

`Command.run` is a function of the arguments, the variables and the files, so that all of this
can be stated about it.
-/

namespace PolicyDecision.Command

def version : String := "0.1.0"

/-- What the command logs itself. -/
inductive Remark
  | started
  | providerIgnored
  | loaded (entities resources policies : Nat)
  | checking (query : Query)

def Remark.level : Remark → Level
  | .providerIgnored => .warn
  | _ => .info

def Remark.text : Remark → String
  | .started => s!"permit-check v{version}"
  | .providerIgnored => "Ignoring configured data provider; checks run against the snapshot"
  | .loaded entities resources policies =>
    s!"Loaded snapshot: {entities} entities, {resources} resources, {policies} policies"
  | .checking query =>
    let names := Text.quotedList query.request.access.names
    let requester := query.request.requester
    let resource := query.request.resource.target
    s!"Checking {names} for {requester} on {resource} ({query.compounder.name} compounder)"

/-- What the command leaves behind. -/
structure Report where
  status : Nat
  output : String := ""
  log : List LogLine := []
  /-- What is said besides the log when there is no verdict. -/
  complaint : String := ""

/-- What a report says beside its output: the log from a level upward, if there is one, and the
complaint. -/
def Report.said (report : Report) (least : Option Level) : String :=
  let log := least.elim [] fun least => report.log.filter (LogLine.reaches least)
  String.join (log.map fun line => line.written ++ "\n") ++ report.complaint

def usage : String :=
  "Usage: permit-check [--compounder <NAME>] <SNAPSHOT> <REQUEST>\n"

/-- What the command is given. -/
structure Surroundings where
  environment : String → Option String
  files : String → Option ByteArray
  /-- The identifier of the policy at a place of the snapshot that has none. -/
  fresh : Nat → PolicyId

/-! ### Running -/

/-- A step that could not be done, and why. -/
structure Failure where
  step : String
  cause : Error

/-- The text of a failure. The lines of the cause are set in. -/
def Failure.text (failure : Failure) : String :=
  let cause := "\n    ".intercalate (failure.cause.message.splitOn "\n")
  s!"Error: {failure.step}\n\nCaused by:\n    {cause}\n"

/-- Steps that log and may fail. -/
abbrev Run := ExceptT Failure (StateM (List LogLine))

namespace Run

def log (lines : List LogLine) : Run Unit :=
  modify (· ++ lines)

def remark (r : Remark) : Run Unit :=
  log [⟨r.level, r.text⟩]

/-- Go on with a result, unless the step failed. -/
def attempt {α : Type} (step : String) : Except Error α → Run α
  | .ok a => return a
  | .error cause => throw ⟨step, cause⟩

end Run

/-- Decide a request with a new engine over a snapshot. -/
def decide (config : Config) (snapshot : Snapshot) (query : Query) : Run (Except Error Bool) := do
  let started := Engine.start (.ofSnapshot snapshot) config {} ()
  Run.log (logLines started.trail)
  match started.result with
  | .error cause => return .error cause
  | .ok engine =>
    let checked := Engine.check query.request query.compounder.compounder engine
    Run.log (logLines checked.trail)
    return checked.result

/-- Load a snapshot and a query and decide the query; the compounder that was asked, and what
came of it. -/
def check (around : Surroundings) (arguments : Arguments) :
    Run (CompounderKind × Except Error Bool) := do
  Run.remark .started
  let config ← Run.attempt "invalid IPERMIT_* configuration" <|
    (Config.ofVariables around.environment).mapError .config
  if config.dataProvider ≠ .memory then Run.remark .providerIgnored
  let snapshot ← Run.attempt s!"failed to load snapshot {arguments.snapshot}" <|
    File.decode (Snapshot.decode around.fresh) (around.files arguments.snapshot)
  Run.remark <| .loaded snapshot.entities.length snapshot.resources.length
    snapshot.policies.length
  let text ← Run.attempt s!"failed to read {arguments.query}" <|
    File.text (around.files arguments.query)
  let query ← Run.attempt s!"failed to parse request {arguments.query}" <|
    (decodeText Query.decode text).mapError .serialization
  let query := { query with compounder := arguments.compounder.getD query.compounder }
  Run.remark (.checking query)
  return (query.compounder, ← decide config snapshot query)

/-- Report what came of a check. -/
def Report.ofOutcome (log : List LogLine) :
    Except Failure (CompounderKind × Except Error Bool) → Report
  | .ok (_, .ok true) => { status := 0, output := "allow\n", log }
  | .ok (_, .ok false) => { status := 1, output := "deny\n", log }
  | .ok (compounder, .error .noDecision) =>
    { status := 2, log
      complaint := s!"no policy reached a decision ({compounder.name} compounder)\n" }
  | .ok (_, .error cause) =>
    { status := 1, log, complaint := Failure.text ⟨"permission check failed", cause⟩ }
  | .error failure => { status := 1, log, complaint := failure.text }

def run (around : Surroundings) (args : List String) : Report :=
  match Arguments.read args with
  | .check arguments =>
    let (outcome, log) := (check around arguments).run.run []
    .ofOutcome log outcome
  | .version => { status := 0, output := s!"permit-check {version}\n" }
  | .help => { status := 0, output := usage }
  | .invalid => { status := 64, complaint := usage }

end PolicyDecision.Command
