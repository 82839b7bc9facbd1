import PolicyDecision.Command

/-!
# permit-check

The command on a real file system: it gathers the variables and files that `Command.run` needs,
and prints its report.
-/

namespace PolicyDecision.Command

/-- The bytes of a file that can be read. -/
def readFile (name : String) : IO (Option ByteArray) := do
  try return some (← IO.FS.readBinFile name) catch _ => return none

/-- The values of those variables that are set. -/
def readEnvironment : IO (List (String × String)) :=
  Config.variableNames.filterMapM fun name => do
    return (← IO.getEnv name).map fun text => (name, text)

/-- The files that the arguments name. -/
def readFiles (args : List String) : IO (List (String × Option ByteArray)) := do
  match Arguments.read args with
  | .check arguments =>
    [arguments.snapshot, arguments.query].mapM fun name => return (name, ← readFile name)
  | _ => return []

/-- The least severity that is logged, or `none` if nothing is. The variable names one severity for all
events; where it is not set, this is `info`. -/
def readThreshold : IO (Option Level) := do
  match ← IO.getEnv "RUST_LOG" with
  | none => return some .info
  | some word => return Level.ofName? word

end PolicyDecision.Command

open PolicyDecision in
/-- Decide a request against a snapshot. -/
def main (args : List String) : IO UInt32 := do
  let environment ← Command.readEnvironment
  let files ← Command.readFiles args
  let seed ← IO.rand 0 (Nat.pow 2 122)
  let report := Command.run
    { environment := fun name => List.lookup name environment
      files := fun name => (List.lookup name files).join
      fresh := fun i => ⟨⟨BitVec.ofNat 128 (seed + i)⟩⟩ } args
  IO.eprint (report.said (← Command.readThreshold))
  IO.print report.output
  return report.status.toUInt32
