import DialogueScript.Diagnostic
import DialogueScript.Scanner.Word
import DialogueScript.Text.WhiteSpace

/-!
The token at the start of a text, without trivia: its kind and how many characters it takes. Each
mode has its own rule; line breaks and the end of the text are the same in all of them.
-/

namespace DialogueScript

structure Lexeme where
  kind : Kind
  length : Nat
  error : Option LexicalError := none
deriving DecidableEq, Repr

namespace Lexeme

/-- A kind with its fixed spelling. -/
def spelled (k : Kind) : Lexeme := ⟨k, k.chars.length, none⟩

/-- The first of some kinds whose spelling stands at the start of a text. -/
def spelledAt? (ks : List Kind) (t : Text) : Option Lexeme :=
  (ks.find? (·.chars.isPrefixOf t)).map spelled

def failure (e : LexicalError) (length : Nat) : Lexeme := ⟨.errorToken, length, some e⟩

/-! ### Headers -/

def header (t : Text) : Lexeme :=
  (spelledAt? [.bodyStart, .bodyEnd] t).getD <|
  ((headerKeyword? t).map spelled).getD <|
  ((Text.word? t).map fun word => ⟨.ident, word.length, none⟩).getD <|
  (spelledAt? [.hash, .colon] t).getD <|
  failure .unexpectedCharacter (Text.firstLine t).length

/-- The length of a run up to a stop character or a comment. -/
def runLength (stop : Char → Bool) : Text → Nat
  | [] => 0
  | c :: cs => if stop c || Text.startsComment (c :: cs) then 0 else runLength stop cs + 1

/-- The rest of a header line, up to a comment and without the blanks at its end. -/
def headerValue (t : Text) : Lexeme :=
  let line := Text.firstLine t
  let value := Text.trimEnd (line.take (runLength (fun _ => false) line))
  if value.isEmpty then header t else ⟨.restOfLine, value.length, none⟩

/-! ### Dialogue -/

/-- The characters that end a run of dialogue text. -/
def isTextStop (c : Char) : Bool :=
  c = '#' || c = '<' || c = '>' || c = '\x7b' || c = '\x7d' || c = '\\' || isLineBreak c

/-- The length of a run without the blanks at its end, unless the run is blank throughout. -/
def trimmedLength (run : Text) : Nat :=
  let trimmed := (Text.trimEnd run).length
  if trimmed = 0 then run.length else trimmed

/-- The length of a run up to a stop character or a comment. The blanks at its end are left out
where the run is followed by the end of the line or by one of `markers`. -/
def visibleRunLength (stop : Char → Bool) (markers : List String) (t : Text) : Nat :=
  let n := runLength stop t
  let after := t.drop n
  if Text.atLineEnd after || markers.any (Text.startsWith after ·) then trimmedLength (t.take n)
  else n

/-- A backslash and the character that it protects. -/
def textEscape : Text → Lexeme
  | _ :: c :: _ =>
    if isLineBreak c then failure .unterminatedEscape 1 else ⟨.textEscape, 2, none⟩
  | _ => failure .unterminatedEscape 1

def textRun (t : Text) : Lexeme :=
  match visibleRunLength isTextStop ["//", "#", "<<"] t with
  | 0 => failure .unexpectedCharacter 1
  | n => ⟨.text, n, none⟩

def text (t : Text) : Lexeme :=
  (spelledAt? [.commandStart, .leftBrace, .hash] t).getD <|
  match t.head? with
  | some '\x7d' => failure .unmatchedBrace 1
  | some '\\' => textEscape t
  | some '<' => ⟨.text, 1, none⟩
  | some '>' => ⟨.text, 1, none⟩
  | _ => textRun t

def statement (t : Text) : Lexeme :=
  (spelledAt? [.bodyEnd] t).getD <|
  if headerKeyword? t = some .titleKw then spelled .titleKw
  else (spelledAt? [.shortcutArrow, .lineGroupArrow] t).getD (text t)

/-- The characters that end the text of a hashtag. -/
def isHashtagStop (c : Char) : Bool :=
  c = '#' || c = '<' || c = '>' || c = '\x7b' || c = '\x7d' || isLineBreak c

def hashtag (t : Text) : Lexeme :=
  if t.head?.any (fun c => isWhiteSpace c || isTextStop c) || Text.startsComment t then text t
  else ⟨.hashtagText, visibleRunLength isHashtagStop ["#", "<", ">", "\x7b", "\x7d", "//"] t, none⟩

/-! ### Commands -/

/-- The length of command text, up to an interpolation, the closing marker or the line's end. -/
def commandRunLength : Text → Nat
  | [] => 0
  | c :: cs =>
    if c = '\x7b' || isLineBreak c || Text.startsWith (c :: cs) ">>" then 0
    else commandRunLength cs + 1

def commandText (t : Text) : Lexeme :=
  (spelledAt? [.commandEnd, .leftBrace] t).getD <|
  let n := commandRunLength t
  let after := t.drop n
  if Text.atLineEnd after || Text.startsWith after ">>" then
    ⟨.commandText, trimmedLength (t.take n), none⟩
  else ⟨.commandText, n, none⟩

/-! ### Expressions -/

/-- Punctuation and operators; of two that fit, the longer stands first. -/
def exprSymbols : List Kind :=
  [.eq2, .neq, .lteq, .gteq, .commandEnd, .plusEq, .minusEq, .starEq, .slashEq, .percentEq, .amp2,
   .pipe2, .leftParen, .rightParen, .comma, .dot, .dollar, .leftBrace, .rightBrace, .colon, .caret,
   .eq, .bang, .lt, .gt, .plus, .minus, .star, .slash, .percent]

/-- The length of the digits at the start of a text, with a fraction if one follows. -/
def numberLength (t : Text) : Nat :=
  let whole := t.takeWhile Char.isDigit
  match t.drop whole.length with
  | '.' :: rest =>
    let fraction := rest.takeWhile Char.isDigit
    if fraction.isEmpty then whole.length else whole.length + 1 + fraction.length
  | _ => whole.length

/-- The length of what follows an opening quote, and whether it ends with the closing one. -/
def stringLength : Text → Nat × Bool
  | [] => (0, false)
  | c :: cs =>
    if isLineBreak c then (0, false)
    else if c = '"' then (1, true)
    else if c = '\\' then
      match cs with
      | d :: ds =>
        if isLineBreak d then (1, false)
        else let (n, closed) := stringLength ds; (n + 2, closed)
      | [] => (1, false)
    else let (n, closed) := stringLength cs; (n + 1, closed)

/-- A string literal, of which `t` is the part after the opening quote. -/
def string (t : Text) : Lexeme :=
  match stringLength t with
  | (n, true) => ⟨.string, n + 1, none⟩
  | (n, false) => failure .unterminatedString (n + 1)

def expr (mode : Mode) (t : Text) : Lexeme :=
  (spelledAt? exprSymbols t).getD <|
  match t with
  | [] => ⟨.eof, 0, none⟩
  | c :: cs =>
    if c = '"' then string cs
    else if c.isDigit then ⟨.number, numberLength t, none⟩
    else
      match Text.word? t with
      | some word => ⟨(keywordIn? mode.keywords word).getD .ident, word.length, none⟩
      | none => failure .unexpectedCharacter 1

/-! ### All modes -/

/-- The token at the start of a text. -/
def next (mode : Mode) (t : Text) : Lexeme :=
  if t.isEmpty then ⟨.eof, 0, none⟩
  else
    match Text.lineBreak? t with
    | some n => ⟨.newline, n, none⟩
    | none =>
      match mode with
      | .header => header t
      | .headerValue => headerValue t
      | .statement | .afterOption => statement t
      | .text => text t
      | .hashtag => hashtag t
      | .commandText => commandText t
      | .whenHeader | .command | .expr | .name => expr mode t

end Lexeme

end DialogueScript
