import DialogueScript.CommandLine.Args
import DialogueScript.CommandLine.Folder
import DialogueScript.Session
import DialogueScript.Snippet
import DialogueScript.Tree.Dump

/-!
What the program prints for given arguments and files.
-/

namespace DialogueScript.CommandLine

/-- What a run leaves behind. -/
structure Outcome where
  code : Nat
  stdout : String := ""
  /-- The diagnostics of the files that were checked. -/
  reports : List String := []
  /-- The last thing on the error output. -/
  stderr : String := ""
deriving DecidableEq, Repr

/-- The outcome for arguments that are not understood. -/
def usageError : Outcome := { code := 2 }

def readFailure (path : String) (e : ReadError) (reports : List String) : Outcome where
  code := 1
  reports
  stderr := s!"Error: failed to read `{path}`\n\nCaused by:\n    {e.cause}"

/-- A text filled up with blanks on the right. -/
def padded (width : Nat) (s : String) : String :=
  s ++ String.ofList (List.replicate (width - s.length) ' ')

/-- The line of a token: its kind, its position and its text. -/
def tokenLine (t : Text) (l : Located) : String :=
  let start := (LineCol.of? t l.ownRange.start).getD .zero
  let text := match l.tree with
    | .leaf token => token.text
    | .node .. => []
  s!"{padded 20 l.kind.label} {padded 8 start.display} {String.ofList (Text.quoted text)}\n"

/-- Checks files one after the other; `reports` holds what was found before. -/
def check (config : Config) (read : String → Except ReadError Text) (reports : List String) :
    List String → Outcome
  | [] =>
    if reports.isEmpty then { code := 0 }
    else { code := 1, reports, stderr := s!"found {reports.length} error(s)" }
  | path :: paths =>
    match read path with
    | .error e => readFailure path e reports
    | .ok t =>
      let found := Diagnostic.sort (Parse.ofText config t).diagnostics
      let shown := found.map fun d => (d.snippet? path t).getD d.display
      check config read (reports ++ shown) paths

def Invocation.run (i : Invocation) (read : String → Except ReadError Text) : Outcome :=
  match i.command with
  | .check paths => check i.config read [] paths
  | .tree path =>
    match read path with
    | .error e => readFailure path e []
    | .ok t => { code := 0, stdout := (Parse.ofText i.config t).tree.dump }
  | .tokens path =>
    match read path with
    | .error e => readFailure path e []
    | .ok t =>
      { code := 0
        stdout := String.join ((Parse.ofText i.config t).root.leaves.map (tokenLine t)) }

/-- Runs the program. -/
def run (args : List String) (read : String → Except ReadError Text) : Outcome :=
  match Invocation.ofArgs? args with
  | none => usageError
  | some i => i.run read

/-- The files that a run reads. -/
def Command.paths : Command → List String
  | .check paths => paths
  | .tree path => [path]
  | .tokens path => [path]

end DialogueScript.CommandLine
