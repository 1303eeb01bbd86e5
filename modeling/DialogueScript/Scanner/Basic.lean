import DialogueScript.Diagnostic
import DialogueScript.Scanner.Layout
import DialogueScript.Scanner.Lexeme

/-!
Reading a text token by token. The reader says with every call in which mode it stands. At the start
of a statement line the scanner compares the line's indentation with the open blocks and hands out
the tokens that close and open blocks before the line's first real token.
-/

namespace DialogueScript

/-- What taking a token does to the scanner. -/
inductive Effect where
  | dedent
  | blank
  | indent (width : Nat)
  | content
deriving DecidableEq, Repr

/-- A token that has been looked at, with the mode it was read in. -/
structure Lexed extends PlacedToken where
  mode : Mode
  error : Option LexicalError
  effect : Effect
deriving DecidableEq, Repr

structure Scanner where
  config : Config
  /-- The text that is not yet consumed, which starts at `offset`. -/
  rest : Text
  offset : Nat
  stack : IndentStack
  /-- Whether the next token is the first of its line. -/
  lineStart : Bool
  /-- What the indentation of the current line still asks for. -/
  line : Option LinePlan
  peeked : Option Lexed
  diagnostics : List Diagnostic
deriving DecidableEq, Repr

namespace Scanner

/-- A scanner at the start of a line, where `rest` is what follows `offset`. -/
def atLine (config : Config) (rest : Text) (offset : Nat) (stack : IndentStack) : Scanner :=
  { config, rest, offset, stack, lineStart := true, line := none, peeked :=
    none, diagnostics := [] }

def start (config : Config) (t : Text) : Scanner := atLine config t 0 .empty

/-- A scanner that goes on at a position of a text with the blocks that were open there. -/
def resume? (config : Config) (t : Text) (offset : Nat) (stack : IndentStack) : Option Scanner := do
  let (_, rest) ← Text.cut? t offset
  return atLine config rest offset stack

/-! ### Looking -/

/-- The last line has no line break and blocks are still open. The end of the text closes them the
way an empty last line does. -/
def atUnterminatedEnd (s : Scanner) : Bool := !s.stack.isEmpty && (Text.dropBlanks s.rest).isEmpty

/-- Starts the line at an unterminated end and makes the plan of a new line. -/
def settle (s : Scanner) (mode : Mode) : Scanner :=
  if mode.isIndentSensitive then
    let s := if s.atUnterminatedEnd then { s with lineStart := true } else s
    if s.lineStart && s.line.isNone then
      { s with line := some (planLine s.config s.stack s.offset s.rest) }
    else s
  else s

/-- The text from a position on that has not been passed. -/
def textFrom (s : Scanner) (position : Nat) : Text :=
  ((Text.cut? s.rest (position - s.offset)).map (·.2)).getD []

/-- The text in a range that starts at a position that has not been passed. -/
def textIn (s : Scanner) (r : Range) : Text :=
  (Text.slice? s.rest ⟨r.start - s.offset, r.stop - s.offset⟩).getD []

/-- The token whose own text is in a range, with the trivia around it. -/
def place (s : Scanner) (leading : List Trivia) (kind : Kind) (kindRange : Range)
    (trailing : List Trivia) : PlacedToken :=
  let leading := Trivia.sizes leading
  let trailing := Trivia.sizes trailing
  let bare : PlacedToken := ⟨{ leading, kind, fullText := [], trailing }, kindRange⟩
  { bare with token.fullText := s.textIn bare.range }

/-- The token that the plan of the current line asks for. -/
def planned? (s : Scanner) (mode : Mode) : Option Lexed := do
  let plan ← s.line
  if 0 < plan.dedents then
    return ⟨s.place [] .dedent (.empty s.offset) [], mode, none, .dedent⟩
  let blank := if mode = .afterOption then plan.blankAt? s.offset else none
  match blank with
  | some blank => return ⟨s.place [] .blankLine blank [], mode, none, .blank⟩
  | none =>
    match plan.entry with
    | .level => none
    | .deeper width =>
      let next := s.place (lineTrivia s.rest) .indent (.empty plan.content) []
      return ⟨next, mode, none, .indent width⟩
    | .mismatch =>
      let size := Text.size (Text.firstLine (s.textFrom plan.content))
      let next := s.place (lineTrivia s.rest) .errorToken (.ofSize plan.content size) []
      return ⟨next, mode, some .indentationMismatch, .content⟩

/-- Tokens after which more dialogue or command text can follow. The blanks after them belong to
that text. -/
def keepsBlanks : Kind → Bool
  | .text | .textEscape | .rightBrace | .commandEnd | .hashtagText | .commandText | .restOfLine
  | .errorToken => true
  | _ => false

/-- Whether no dialogue text follows some blanks. -/
def endsText (t : Text) : Bool :=
  Text.atLineEnd t || ["//", "#", "<<", ">>"].any (Text.startsWith t ·)

/-- The trivia after a token. -/
def trailing (mode : Mode) (kind : Kind) (t : Text) : List Trivia :=
  if kind = .newline || kind = .eof || kind = .hash || kind.isStructural then []
  else
    gap (!keepsBlanks kind || endsText (Text.dropBlanks t))
      ((mode.allowsComments || kind = .commandEnd) && kind ≠ .commandStart && kind ≠ .leftBrace) t

/-- The trivia before a token. -/
def leading (s : Scanner) (mode : Mode) : List Trivia :=
  if s.lineStart then lineTrivia s.rest else gap mode.skipsBlanks mode.allowsComments s.rest

/-- The next token of the text itself. -/
def content (s : Scanner) (mode : Mode) : Lexed :=
  let leading := s.leading mode
  let rest := s.rest.drop (Trivia.concat leading).length
  let lexeme := Lexeme.next mode rest
  let start := s.offset + (Trivia.sizes leading).total
  let kindRange := Range.ofSize start (Text.size (rest.take lexeme.length))
  let trailing := trailing mode lexeme.kind (rest.drop lexeme.length)
  ⟨s.place leading lexeme.kind kindRange trailing, mode, lexeme.error, .content⟩

/-- The next token, for a scanner that has settled in the mode. -/
def scan (s : Scanner) (mode : Mode) : Lexed :=
  (if s.lineStart then s.planned? mode else none).getD (s.content mode)

/-- The next token in a mode. A token that was looked at in the same mode is not read again. -/
def lexed (s : Scanner) (mode : Mode) : Lexed × Scanner :=
  match s.peeked.filter (·.mode = mode) with
  | some l => (l, s)
  | none => ((s.settle mode).scan mode, s.settle mode)

/-- Looks at the next token without taking it. -/
def peek (s : Scanner) (mode : Mode) : PlacedToken × Scanner :=
  let (l, s) := s.lexed mode
  (l.toPlacedToken, { s with peeked := some l })

/-- The keyword after the `<<` that stands next, if a command does. -/
def peekCommandKeyword (s : Scanner) (mode : Mode) : Option Kind × Scanner :=
  let (next, s) := s.peek mode
  if next.token.kind = .commandStart then
    (commandKeywordAt? (s.textFrom next.kindRange.stop), s)
  else (none, s)

/-! ### Taking -/

/-- Moves past a token. -/
def skip (s : Scanner) (next : PlacedToken) : Scanner :=
  { s with rest := s.textFrom next.range.stop, offset := next.range.stop }

/-- Changes what is left of the current line's plan. -/
def replan (s : Scanner) (f : LinePlan → LinePlan) : Scanner := { s with line := s.line.map f }

/-- Reports the error of a token that is about to be taken. -/
def report (s : Scanner) (l : Lexed) : Scanner :=
  match l.error with
  | none => s
  | some e =>
    let problem := Problem.lexical e
    { s with diagnostics :=
        s.diagnostics ++ [{ problem, message := problem.message, range := l.kindRange }] }

/-- Takes a token that has been read at the current position. -/
def take (s : Scanner) (l : Lexed) : Scanner :=
  let s := s.report l
  match l.effect with
  | .dedent =>
    { s with stack := s.stack.pop }.replan fun plan => { plan with dedents := plan.dedents - 1 }
  | .blank => (s.skip l.toPlacedToken).replan fun plan => { plan with blank := none }
  | .indent width =>
    { s.skip l.toPlacedToken with stack := s.stack.push width }.replan fun plan =>
      { plan with entry := .level }
  | .content =>
    { s.skip l.toPlacedToken with line := none, lineStart := l.token.kind = .newline }

/-- Takes the next token. -/
def bump (s : Scanner) (mode : Mode) : PlacedToken × Scanner :=
  let (l, s) := s.lexed mode
  (l.toPlacedToken, { s with peeked := none }.take l)

/-- Takes everything that is left as a single error token and closes the open blocks. -/
def bumpRest (s : Scanner) : Option PlacedToken × Scanner :=
  let s := { s with peeked := none, line := none, lineStart := false, stack := .empty }
  if s.rest.isEmpty then (none, s)
  else
    let next := s.place [] .errorToken (.ofSize s.offset (Text.size s.rest)) []
    (some next, s.skip next)

/-- Hands over the diagnostics reported so far. -/
def takeDiagnostics (s : Scanner) : List Diagnostic × Scanner :=
  (s.diagnostics, { s with diagnostics := [] })

/-- An upper bound on the number of tokens before the end of the text. Every token either consumes
a character, and may then open one block, or closes one. -/
def budget (s : Scanner) : Nat := 2 * s.rest.length + s.stack.depth

end Scanner

end DialogueScript
