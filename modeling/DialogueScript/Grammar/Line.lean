import DialogueScript.Grammar.Expression

/-!
Lines of dialogue: text with interpolations, a condition, hashtags, and the line break.
-/

namespace DialogueScript

namespace Parser

/-- The tokens at which a damaged interpolation ends. -/
def interpolationEnds : KindSet := .ofList [.rightBrace, .commandEnd, .newline, .eof]

/-- Takes the brace behind an interpolated expression, with what is left before it. -/
def interpolationEnd : Parser Unit := do
  if !(← eat .expr .rightBrace) then
    error .expr "expected `\x7d`"
    node .error (advanceTo interpolationEnds)
    let _ ← eat .expr .rightBrace

/-- An expression in braces, of which the opening one is read in the given mode. -/
def interpolation (levels : Nat) (mode : Mode) : Parser Unit :=
  node .interpolation do
    advance mode
    let _ ← expr levels
    interpolationEnd

/-- A step over the text of a line, of which the first token is read in the given mode. -/
def textStep (levels : Nat) (first : Mode) (found : Bool) : Parser (ForInStep Bool) := do
  let mode := if found then .text else first
  match ← peekKind mode with
  | .text | .textEscape =>
    advance mode
    return .yield true
  | .leftBrace =>
    interpolation levels mode
    return .yield true
  | .errorToken =>
    node .error (advance mode)
    return .yield true
  | _ => return .done found

/-- The text of a line. Answers whether there is any. -/
def lineText (levels : Nat) (first : Mode) : Parser Bool :=
  nodeIf .lineText (loop (textStep levels first) false)

/-- The condition of a line behind its `<<`. -/
def conditionRest (levels : Nat) : Parser Unit := do
  if ← eat .command .onceKw then
    if ← eat .command .ifKw then
      let _ ← expr levels
  else
    let _ ← expect .command .ifKw "expected `if`"
    let _ ← expr levels
  commandEnd .expr

/-- The `<<if …>>`, `<<once>>` or `<<once if …>>` at the end of a line. -/
def lineCondition (levels : Nat) : Parser Unit :=
  node .lineCondition do
    advance .text
    conditionRest levels

def hashtag : Parser Unit :=
  node .hashtag do
    advance .text
    let _ ← expect .hashtag .hashtagText "expected hashtag text"

def hashtags : Parser Unit := repeatWhile (isAt .text .hash) hashtag

/-- What follows the text of a line. -/
def lineRest (levels : Nat) : Parser Unit := do
  if ← isAt .text .commandStart then
    match ← peekCommand .text with
    | some .ifKw | some .onceKw => lineCondition levels
    | _ => errorLine .text "expected `<<if` or `<<once` after line text"
  hashtags
  endOfLine .text

/-- A whole line, of which the first token is read in the given mode. -/
def line (levels : Nat) (first : Mode) : Parser Unit :=
  node .lineStmt do
    if !(← lineText levels first) then error first "expected line text"
    lineRest levels

end Parser

end DialogueScript
