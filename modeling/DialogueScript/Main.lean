import DialogueScript.CommandLine.Run

/-!
The program: it reads the files that its arguments name and prints what the library answers.
-/

namespace DialogueScript.CommandLine

/-- The cause of a failure to read. A failure to open names the path, and a folder fails only when
it is read. What has no name here counts as a missing file. -/
def ReadError.ofFailure : IO.Error → ReadError
  | .inappropriateType none .. => .isFolder
  | .inappropriateType (some _) .. => .notFolder
  | .invalidArgument .. => .nameTooLong
  | _ => .notFound

def readFile (path : String) : IO (Except ReadError Text) := do
  try
    return decodeText (← IO.FS.readBinFile path)
  catch failure => return .error (.ofFailure failure)

/-- Reads all files that an invocation names. -/
def readFiles (i : Invocation) : IO (String → Except ReadError Text) := do
  let contents ← i.command.paths.mapM fun path => return (path, ← readFile path)
  return fun path => (contents.lookup path).getD (.error .notFound)

def execute (args : List String) : IO UInt32 := do
  match Invocation.ofArgs? args with
  | none =>
    IO.eprintln "usage: check PATH... | tree PATH | tokens PATH"
    return 2
  | some i =>
    let outcome := i.run (← readFiles i)
    IO.print outcome.stdout
    for report in outcome.reports do IO.eprintln report
    unless outcome.stderr.isEmpty do IO.eprintln outcome.stderr
    return UInt32.ofNat outcome.code

end DialogueScript.CommandLine

def main (args : List String) : IO UInt32 := DialogueScript.CommandLine.execute args
