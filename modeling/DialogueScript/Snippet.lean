import DialogueScript.Diagnostic
import DialogueScript.Text.Line

/-!
A diagnostic shown with the line of the text that it is about.
-/

namespace DialogueScript

namespace Diagnostic

/-- The lines of a text, where only `\n` ends a line. -/
def linesOf (t : Text) : List Text := t.splitOn '\n'

/-- The snippet of a diagnostic that starts on the given line. The line's number stands left of a
margin, and carets below the line mark the range. -/
def snippetAt (d : Diagnostic) (path : String) (start : LineCol) (line : Text) : String :=
  let number := toString (start.line + 1)
  let margin := String.ofList (List.replicate number.length ' ')
  let carets := String.ofList (List.replicate (max 1 d.range.size) '^')
  let marked := String.ofList (List.replicate start.col ' ') ++ carets ++ " " ++ d.problem.code
  "\n".intercalate
    [s!"error[{d.problem.code}]: {d.message}", s!"{margin}--> {path}:{start.display}",
     s!"{margin} |", s!"{number} | {String.ofList line}", s!"{margin} | {marked}", s!"{margin} |"]

/-- The snippet of a diagnostic at the end of a text without a last line. -/
def snippetAtEnd (d : Diagnostic) (path : String) : String :=
  "\n".intercalate
    [s!"error[{d.problem.code}]: {d.message}", s!"--> {path}:1:1", " |", " |"]

/-- A diagnostic with the line it starts on. -/
def snippet? (d : Diagnostic) (path : String) (t : Text) : Option String := do
  let start ← LineCol.of? t d.range.start
  if d.range.start = Text.size t && (t.getLast?.all (· = '\n')) then
    return d.snippetAtEnd path
  else
    return d.snippetAt path start ((linesOf t).getD start.line [])

end Diagnostic

end DialogueScript
