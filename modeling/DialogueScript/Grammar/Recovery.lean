import DialogueScript.Grammar.Parser

/-!
What the rules do about tokens that do not fit: they are put into an error node, as far as the end
of the line, of the command or of the construct, and reading goes on after them.
-/

namespace DialogueScript

namespace Parser

/-- Reports an error and puts the next token into an error node, unless it is one of `recovery` or
ends the line. -/
def errorRecover (mode : Mode) (message : String) (recovery : KindSet) : Parser Unit := do
  error mode message
  if !(← isAtAny mode recovery) && !(← isAtLineEnd mode) then
    node .error (advance mode)

/-- Takes dialogue text up to the end of the line. -/
def advanceLine : Parser Unit := repeatWhile (isInLine .text) (advance .text)

/-- Takes the tokens of an expression up to one of the given kinds. -/
def advanceTo (ends : KindSet) : Parser Unit := repeatWhile (isBefore .expr ends) (advance .expr)

/-- Puts the rest of the line, without its line break, into an error node. -/
def skipLine (mode : Mode) : Parser Unit := do
  if !(← isAtLineEnd mode) then
    node .error do
      advance mode
      advanceLine

/-- Reports an error and passes over the rest of the line. -/
def errorLine (mode : Mode) (message : String) : Parser Unit := do
  error mode message
  skipLine mode

def eatNewline : Parser Unit := do let _ ← eat .text .newline

/-- Takes the line break that ends the line, or the rest of the line with it. -/
def endOfLine (mode : Mode) : Parser Unit := do
  if ← isAt mode .eof then return
  if ← eat mode .newline then return
  errorLine mode "expected end of line"
  eatNewline

/-- The tokens that end a command or the line. -/
def commandEnds : KindSet := .ofList [.newline, .eof, .commandEnd]

/-- Takes the `>>` that ends a command, with what is left before it on the line. -/
def commandEnd (mode : Mode) : Parser Unit := do
  if ← eat mode .commandEnd then return
  error mode "expected `>>`"
  if ← isAtLineEnd mode then return
  node .error (advanceTo commandEnds)
  let _ ← eat .expr .commandEnd

/-- A bare name; no word is a keyword here. -/
def name (recovery : KindSet) : Parser Unit := do
  if ← isAt .name .ident then node .name (advance .name)
  else errorRecover .name "expected a name" recovery

/-- The tokens that a missing name in a command is looked for no further than. -/
def nameRecovery : KindSet := .ofList [.commandEnd, .eq, .toKw, .newline, .eof]

end Parser

end DialogueScript
