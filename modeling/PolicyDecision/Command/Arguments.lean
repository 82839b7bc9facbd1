import PolicyDecision.Compounder

/-!
# Arguments of the command

The command takes the file of a snapshot and the file of a query, and optionally the name of a
compounder, which may stand anywhere: as `-c NAME`, `-cNAME`, `-c=NAME`, `--compounder NAME` or
`--compounder=NAME`. After `--` every argument is a file. Arguments are read from left to right,
so a request for help or for the version is answered only if nothing before it is wrong.
-/

namespace PolicyDecision

/-- What the command is asked to do. -/
structure Arguments where
  snapshot : String
  query : String
  compounder : Option CompounderKind

/-- What the arguments say. -/
inductive Invocation
  | check (arguments : Arguments)
  | version
  | help
  | invalid

namespace Arguments

/-- The arguments read so far, files in reverse. -/
structure Draft where
  files : List String := []
  compounder : Option CompounderKind := none

def Draft.addFile (draft : Draft) (name : String) : Option Draft :=
  if name = "" ∨ 2 ≤ draft.files.length then none
  else some { draft with files := name :: draft.files }

/-- The name of the compounder, which is given at most once. -/
def Draft.setCompounder (draft : Draft) (name : String) : Option Draft :=
  if draft.compounder.isSome then none
  else (CompounderKind.ofName? name).map fun kind => { draft with compounder := some kind }

/-- What the arguments say when all of them are read. -/
def Draft.complete (draft : Draft) : Invocation :=
  match draft.files with
  | [query, snapshot] => .check ⟨snapshot, query, draft.compounder⟩
  | _ => .invalid

/-- Whether an argument is an option and cannot be the value of one. -/
def isOption (arg : List Char) : Bool :=
  match arg with
  | '-' :: _ :: _ => true
  | _ => false

/-- Read arguments that are all files. -/
def readFiles (draft : Draft) : List String → Invocation
  | [] => draft.complete
  | name :: rest =>
    match draft.addFile name with
    | some draft => readFiles draft rest
    | none => .invalid

/-- An argument on its own. -/
inductive Argument
  | file (name : String)
  /-- The mark after which every argument is a file. -/
  | filesOnly
  | compounder (name : String)
  /-- The name of the compounder is the next argument. -/
  | compounderNext
  | version
  | help
  | unknown

/-- What an argument is. -/
def classify (arg : String) : Argument :=
  match arg.toList with
  | ['-', '-'] => .filesOnly
  | '-' :: '-' :: name =>
    match name.span (· ≠ '=') with
    | (name, []) =>
      if name = "compounder".toList then .compounderNext
      else if name = "version".toList then .version
      else if name = "help".toList then .help
      else .unknown
    | (name, _ :: value) =>
      if name = "compounder".toList then .compounder (String.ofList value) else .unknown
  | ['-', 'c'] => .compounderNext
  | '-' :: 'c' :: '=' :: value => .compounder (String.ofList value)
  | '-' :: 'c' :: value => .compounder (String.ofList value)
  | '-' :: 'V' :: _ => .version
  | '-' :: 'h' :: _ => .help
  | '-' :: _ :: _ => .unknown
  | _ => .file arg

def readAll (draft : Draft) : List String → Invocation
  | [] => draft.complete
  | arg :: rest =>
    match classify arg with
    | .file name =>
      match draft.addFile name with
      | some draft => readAll draft rest
      | none => .invalid
    | .filesOnly => readFiles draft rest
    | .compounder name =>
      match draft.setCompounder name with
      | some draft => readAll draft rest
      | none => .invalid
    | .compounderNext =>
      match rest with
      | [] => .invalid
      | name :: rest =>
        if isOption name.toList then .invalid else
        match draft.setCompounder name with
        | some draft => readAll draft rest
        | none => .invalid
    | .version => .version
    | .help => .help
    | .unknown => .invalid

/-- What the arguments of the command say. -/
def read (args : List String) : Invocation :=
  readAll {} args

end Arguments
end PolicyDecision
