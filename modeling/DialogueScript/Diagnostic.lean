import DialogueScript.Text.Position

/-!
The problems that reading a script can report. Reading never fails: each problem becomes a
diagnostic with a byte range and, once it has been located, the lines and columns of its ends.
-/

namespace DialogueScript

/-- Problems within a token; each one is confined to a single line. -/
inductive LexicalError where
  | indentationMismatch
  | unterminatedString
  | unterminatedEscape
  | unexpectedCharacter
  | unmatchedBrace
deriving DecidableEq, Repr

/-- Problems in the order of the tokens. -/
inductive GrammarError where
  | unexpectedToken
  | missingEndMarker
  | missingTitle
  | duplicateTitle
  | unresolvedAmbiguity
  | emptyFile
  | cancelled
deriving DecidableEq, Repr

inductive Problem where
  | lexical (e : LexicalError)
  | grammar (e : GrammarError)
deriving DecidableEq, Repr

namespace Problem

def all : List Problem :=
  [.lexical .indentationMismatch, .lexical .unterminatedString, .lexical .unterminatedEscape,
   .lexical .unexpectedCharacter, .lexical .unmatchedBrace, .grammar .unexpectedToken,
   .grammar .missingEndMarker, .grammar .missingTitle, .grammar .duplicateTitle,
   .grammar .unresolvedAmbiguity, .grammar .emptyFile, .grammar .cancelled]

/-- A stable name for tools. -/
def code : Problem → String
  | .lexical .indentationMismatch => "indentation-mismatch"
  | .lexical .unterminatedString => "unterminated-string"
  | .lexical .unterminatedEscape => "unterminated-escape"
  | .lexical .unexpectedCharacter => "unexpected-character"
  | .lexical .unmatchedBrace => "unmatched-brace"
  | .grammar .unexpectedToken => "unexpected-token"
  | .grammar .missingEndMarker => "missing-end-marker"
  | .grammar .missingTitle => "missing-title"
  | .grammar .duplicateTitle => "duplicate-title"
  | .grammar .unresolvedAmbiguity => "unresolved-ambiguity"
  | .grammar .emptyFile => "empty-file"
  | .grammar .cancelled => "cancelled"

/-- What the problem is, where nothing more precise can be said. -/
def message : Problem → String
  | .lexical .indentationMismatch => "indentation does not match any enclosing block"
  | .lexical .unterminatedString => "unterminated string literal"
  | .lexical .unterminatedEscape => "unterminated escape sequence"
  | .lexical .unexpectedCharacter => "unexpected character"
  | .lexical .unmatchedBrace => "unmatched `\x7d`"
  | .grammar .unexpectedToken => "unexpected token"
  | .grammar .missingEndMarker => "missing end marker"
  | .grammar .missingTitle => "node has no title"
  | .grammar .duplicateTitle => "node has more than one title"
  | .grammar .unresolvedAmbiguity => "clause does not belong to any open statement"
  | .grammar .emptyFile => "file contains no nodes"
  | .grammar .cancelled => "parsing was cancelled"

def isLexical : Problem → Bool
  | .lexical _ => true
  | .grammar _ => false

def ofCode? (s : String) : Option Problem := all.find? (·.code = s)

end Problem

structure Diagnostic where
  problem : Problem
  message : String
  range : Range
  start : LineCol := .zero
  stop : LineCol := .zero
deriving DecidableEq, Repr

namespace Diagnostic

/-- The largest position that a range can hold. -/
def maxPosition : Nat := 4294967295

/-- The number of values of 64 bits. -/
def wordCount : Nat := 18446744073709551616

/-- Moves the range by `delta` bytes and keeps its size. The new start is computed in 64 bits, where
too large a sum wraps around, and is then held between zero and the largest position; the move is
refused if the end would lie past that. -/
def shift? (d : Diagnostic) (delta : Int) : Option Diagnostic :=
  let start := min maxPosition (Int.bmod (d.range.start + delta) wordCount).toNat
  if start + d.range.size ≤ maxPosition then
    some { d with range := .ofSize start d.range.size }
  else none

/-- Finds the lines and columns, first of the start and then of the end. An end that is no position
of the text is an error, which keeps what was found before it. -/
def locate (t : Text) (d : Diagnostic) : Except Diagnostic Diagnostic :=
  match LineCol.of? t d.range.start with
  | none => .error d
  | some start =>
    match LineCol.of? t d.range.stop with
    | none => .error { d with start }
    | some stop => .ok { d with start, stop }

/-- Locates every diagnostic of a list, if each can be. -/
def locateAll? (t : Text) (ds : List Diagnostic) : Option (List Diagnostic) :=
  ds.mapM fun d => (d.locate t).toOption

def display (d : Diagnostic) : String := s!"{d.start.display}: {d.message} [{d.problem.code}]"

/-- Diagnostics by the start of their ranges; those that start together keep their order. -/
def sort (ds : List Diagnostic) : List Diagnostic :=
  ds.mergeSort fun a b => a.range.start ≤ b.range.start

end Diagnostic

end DialogueScript
