import DialogueScript.Config
import DialogueScript.IndentStack
import DialogueScript.Scanner.Word
import DialogueScript.Token

/-!
Trivia, and what the indentation of a line does to the open blocks. Blank lines and lines with only
a comment are trivia of the line that follows them and change nothing.
-/

namespace DialogueScript

/-! ### Trivia -/

def blankTrivia (t : Text) : List Trivia :=
  match t.takeWhile isBlank with
  | [] => []
  | blanks => [⟨.whitespace, blanks⟩]

def commentTrivia (t : Text) : List Trivia :=
  if Text.startsComment t then [⟨.comment, Text.firstLine t⟩] else []

/-- Blanks and then a comment, each only where it is allowed. -/
def gap (blanks comments : Bool) (t : Text) : List Trivia :=
  let first := if blanks then blankTrivia t else []
  let rest := t.drop (Trivia.concat first).length
  first ++ if comments then commentTrivia rest else []

theorem lineBreak?_pos {t : Text} {n : Nat} (h : Text.lineBreak? t = some n) :
    0 < n ∧ t ≠ [] := by
  unfold Text.lineBreak? at h
  split at h <;> simp_all <;> omega

/-- The skipped lines at the start of a line, and the indentation of the line after them. -/
def lineTrivia (t : Text) : List Trivia :=
  let margin := gap true true t
  let rest := t.drop (Trivia.concat margin).length
  match _h : Text.lineBreak? rest with
  | none => margin
  | some n => margin ++ ⟨.newline, rest.take n⟩ :: lineTrivia (rest.drop n)
termination_by t.length
decreasing_by
  obtain ⟨hn, hne⟩ := lineBreak?_pos _h
  have : 0 < rest.length := List.length_pos_iff.2 hne
  have : rest.length ≤ t.length := by simp [rest]
  simp only [List.length_drop]
  omega

/-! ### Line plans -/

/-- How a line stands to the innermost block that stays open. -/
inductive Entry where
  /-- At its indentation. -/
  | level
  /-- Deeper, which opens a block of the given width. -/
  | deeper (width : Nat)
  /-- At no indentation that is open. -/
  | mismatch
deriving DecidableEq, Repr

/-- What the indentation of a line still asks for before its first token. -/
structure LinePlan where
  /-- Where the line starts behind its indentation. -/
  content : Nat
  /-- The blocks that have to be closed. -/
  dedents : Nat
  /-- The blank line that stood first among the skipped lines. -/
  blank : Option Range
  entry : Entry
deriving DecidableEq, Repr

/-- The blank line, if it starts at a position. -/
def LinePlan.blankAt? (p : LinePlan) (position : Nat) : Option Range :=
  p.blank.filter (·.start = position)

/-- What the search for the next line with content finds. -/
structure LineHead where
  /-- Where the line starts behind its indentation. -/
  position : Nat
  /-- The text from there on. -/
  rest : Text
  indentation : Text
  /-- The first of the skipped lines, if it is blank. -/
  blank : Option Range
deriving DecidableEq, Repr

/-- Looks for the next line with content, from the start of a line at `position` on. Blank lines and
lines with only a comment are passed over; of these, the first is remembered if it is blank. -/
def findContent (position : Nat) (first : Bool) (blank : Option Range) (t : Text) : LineHead :=
  let indentation := t.takeWhile isBlank
  let line := t.drop indentation.length
  let lineAt := position + Text.size indentation
  if !Text.startsComment line && (Text.lineBreak? line).isNone then
    ⟨lineAt, line, indentation, blank⟩
  else
    let comment := if Text.startsComment line then Text.firstLine line else []
    let tail := line.drop comment.length
    let stop := lineAt + Text.size comment
    match _h : Text.lineBreak? tail with
    | none => ⟨stop, tail, [], blank⟩
    | some n =>
      let next := stop + Text.size (tail.take n)
      let blank := if first && comment.isEmpty then some ⟨position, next⟩ else blank
      findContent next false blank (tail.drop n)
termination_by t.length
decreasing_by
  obtain ⟨hn, hne⟩ := lineBreak?_pos _h
  have : 0 < tail.length := List.length_pos_iff.2 hne
  have : tail.length ≤ t.length := by simp [tail, line]
  simp only [List.length_drop]
  omega

/-- Whether a line closes all blocks: the end of the text, `===`, or the title of the next node. -/
def closesBlocks (content : Text) : Bool :=
  content.isEmpty || Text.startsWith content "===" || headerKeyword? content = some .titleKw

/-- The plan for the line at the start of a text, which stands at `offset`. -/
def planLine (config : Config) (stack : IndentStack) (offset : Nat) (t : Text) : LinePlan :=
  let head := findContent offset true none t
  let plan : LinePlan := ⟨head.position, 0, head.blank, .level⟩
  if closesBlocks head.rest then { plan with dedents := stack.depth }
  else
    let width := IndentStack.measure config.tabWidth head.indentation
    let kept := stack.kept width
    let dedents := stack.depth - kept.length
    let top := kept.getLastD 0
    if 0 < dedents && top ≠ width then { plan with dedents, entry := .mismatch }
    else if top < width then { plan with dedents, entry := .deeper width }
    else { plan with dedents }

end DialogueScript
