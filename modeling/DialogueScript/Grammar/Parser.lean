import DialogueScript.KindSet
import DialogueScript.Scanner.Basic
import DialogueScript.Tree.EventLog

/-!
What every rule of the grammar is written with: looking at and taking tokens in a mode, opening and
closing nodes, reporting errors, and repeating a rule. A rule is a function on the state of the
parser; it always succeeds.
-/

namespace DialogueScript

/-- What is known at the start of a child of the root, so that reading can start there again. -/
structure Checkpoint where
  offset : Nat
  /-- The blocks that are open. -/
  stack : IndentStack
  /-- The number of diagnostics reported before. -/
  diagnostics : Nat
deriving DecidableEq, Repr

structure ParserState where
  scanner : Scanner
  forest : Forest := {}
  /-- How the forest came about. -/
  record : Record := {}
  diagnostics : List Diagnostic := []
  checkpoints : List Checkpoint := []
  /-- The poll from which on the reader wants to stop, counted from one. -/
  cancelAt : Option Nat := none
  /-- How often the reader has been asked. -/
  polls : Nat := 0
  cancelled : Bool := false

/-- A rule of the grammar. -/
abbrev Parser := StateM ParserState

namespace Parser

/-! ### Tokens -/

def peek (mode : Mode) : Parser PlacedToken :=
  modifyGet fun s =>
    let (next, scanner) := s.scanner.peek mode
    (next, { s with scanner })

def peekKind (mode : Mode) : Parser Kind := return (← peek mode).token.kind

/-- Where the next token's own text stands. -/
def peekRange (mode : Mode) : Parser Range := return (← peek mode).kindRange

/-- The keyword after the `<<` that stands next, if a command does. -/
def peekCommand (mode : Mode) : Parser (Option Kind) :=
  modifyGet fun s =>
    let (keyword, scanner) := s.scanner.peekCommandKeyword mode
    (keyword, { s with scanner })

def isAt (mode : Mode) (kind : Kind) : Parser Bool := return (← peekKind mode) = kind

def isAtAny (mode : Mode) (kinds : KindSet) : Parser Bool :=
  return kinds.contains (← peekKind mode)

def isAtLineEnd (mode : Mode) : Parser Bool := do
  let kind ← peekKind mode
  return kind = .newline || kind = .eof

/-- Whether there is more of the line. -/
def isInLine (mode : Mode) : Parser Bool := return !(← isAtLineEnd mode)

/-- Whether the next token is none of the given kinds. -/
def isBefore (mode : Mode) (kinds : KindSet) : Parser Bool := return !(← isAtAny mode kinds)

/-- The position after the last token that was taken. -/
def offset : Parser Nat := return (← get).scanner.offset

/-- Runs a rule, and then one of two others, depending on whether the position has changed. -/
def ifStuck (p : Parser α) (stuck on : Parser β) : Parser β := do
  let before ← offset
  let _ ← p
  if (← offset) = before then stuck else on

/-- Takes the next token, whatever it is, with the errors found in it. -/
def bump (mode : Mode) : Parser Unit :=
  modify fun s =>
    let (next, scanner) := s.scanner.bump mode
    let (found, scanner) := scanner.takeDiagnostics
    { s with
      scanner
      forest := s.forest.add (.leaf next.token)
      record := s.record.token next.token
      diagnostics := s.diagnostics ++ found }

/-- Takes the next token unless the text has ended. -/
def advance (mode : Mode) : Parser Unit := do
  if (← peekKind mode) ≠ .eof then bump mode

/-- Takes everything that is left as one token. -/
def advanceRest : Parser Unit :=
  modify fun s =>
    match s.scanner.bumpRest with
    | (none, scanner) => { s with scanner }
    | (some next, scanner) =>
      { s with
        scanner
        forest := s.forest.add (.leaf next.token)
        record := s.record.token next.token }

/-- Takes the next token if it is of the given kind. -/
def eat (mode : Mode) (kind : Kind) : Parser Bool := do
  if ← isAt mode kind then
    advance mode
    return true
  else return false

/-! ### Errors -/

/-- Reports an error, unless reading has been cancelled. -/
def errorAt (range : Range) (e : GrammarError) (message : String) : Parser Unit :=
  modify fun s =>
    if s.cancelled then s
    else { s with diagnostics := s.diagnostics ++ [{ problem := .grammar e, message, range }] }

/-- Reports an error at the next token. A token that is itself an error is reported when it is
taken. -/
def errorOf (mode : Mode) (e : GrammarError) (message : String) : Parser Unit := do
  let next ← peek mode
  if next.token.kind ≠ .errorToken then errorAt next.kindRange e message

def error (mode : Mode) (message : String) : Parser Unit := errorOf mode .unexpectedToken message

/-- Reports an error at a range, if there is one. -/
def reportAt (range : Range) : Option (GrammarError × String) → Parser Unit
  | some (e, message) => errorAt range e message
  | none => pure ()

/-- Takes a token of the given kind, or reports that it is missing. -/
def expect (mode : Mode) (kind : Kind) (message : String) : Parser Bool := do
  if ← eat mode kind then return true
  else
    error mode message
    return false

/-! ### Nodes -/

def start : Parser Unit :=
  modify fun s => { s with forest := s.forest.start, record := s.record.start }

def complete (kind : Kind) : Parser Unit :=
  modify fun s => { s with forest := s.forest.complete kind, record := s.record.complete kind }

def abandon : Parser Unit :=
  modify fun s => { s with forest := s.forest.abandon, record := s.record.abandon }

def precede : Parser Unit :=
  modify fun s => { s with forest := s.forest.precede, record := s.record.precede }

/-- Puts what a rule takes into a node. -/
def node (kind : Kind) (rule : Parser α) : Parser α := do
  start
  let a ← rule
  complete kind
  return a

/-- Puts what a rule takes into a node of the kind that the rule finds. -/
def nodeOf (rule : Parser Kind) : Parser Kind := do
  start
  let kind ← rule
  complete kind
  return kind

/-- Puts what a rule takes into a node if the rule has found something. -/
def nodeIf (kind : Kind) (rule : Parser Bool) : Parser Bool := do
  start
  let found ← rule
  if found then complete kind else abandon
  return found

/-- Puts the tree that was just finished, and what a rule takes after it, into a node. -/
def nodeAround (kind : Kind) (rule : Parser Unit) : Parser Unit := do
  precede
  rule
  complete kind

/-! ### Cancelling -/

/-- Asks whether to stop, unless that has been decided, and reports the decision. -/
def poll : Parser Bool := do
  let s ← get
  match s.cancelAt with
  | none => return s.cancelled
  | some n =>
    if s.cancelled then return true
    let polls := s.polls + 1
    if n ≤ polls then
      let problem := Problem.grammar .cancelled
      let report : Diagnostic :=
        { problem, message := problem.message, range := .empty s.scanner.offset }
      set { s with polls, cancelled := true, diagnostics := s.diagnostics ++ [report] }
      return true
    else
      set { s with polls }
      return false

def isCancelled : Parser Bool := return (← get).cancelled

/-- Remembers the current position as the start of a child of the root. -/
def checkpoint : Parser Unit :=
  modify fun s =>
    let here := ⟨s.scanner.offset, s.scanner.stack, s.diagnostics.length⟩
    { s with checkpoints := s.checkpoints ++ [here] }

/-! ### Repetition -/

/-- Runs a step at most `n` times, until it is done. -/
def loopUpTo (step : σ → Parser (ForInStep σ)) : Nat → σ → Parser σ
  | 0, a => return a
  | n + 1, a => do
    match ← step a with
    | .yield b => loopUpTo step n b
    | .done b => return b

/-- Runs a step until it is done. A step that goes on takes at least one token, so there are no more
steps than tokens left, and one to find out that there are none. -/
def loop (step : σ → Parser (ForInStep σ)) (a : σ) : Parser σ := do
  loopUpTo step ((← get).scanner.budget + 1) a

/-- A step that runs a rule if a condition holds, and is done otherwise. -/
def whileStep (condition : Parser Bool) (rule : Parser Unit) : Parser (ForInStep Unit) := do
  if ← condition then
    rule
    return .yield ()
  else return .done ()

/-- Repeats a rule as long as a condition holds. -/
def repeatWhile (condition : Parser Bool) (rule : Parser Unit) : Parser Unit :=
  loop (fun _ => whileStep condition rule) ()

end Parser

end DialogueScript
