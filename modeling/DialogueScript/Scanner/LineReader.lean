import DialogueScript.Scanner.Basic

/-!
A reader that goes through a text line by line, choosing each mode from the token before.
-/

namespace DialogueScript

namespace LineReader

/-- The mode after a token that was read in `mode`. -/
def nextMode (mode : Mode) (kind : Kind) : Mode :=
  match kind with
  | .eof => .statement
  | .newline | .indent | .dedent | .blankLine => .afterOption
  | .commandStart | .leftBrace => .expr
  | .hash => .hashtag
  | _ => if mode = .expr then .expr else .text

/-- A token with the mode it was read in and the position at which it starts. -/
structure Reading where
  mode : Mode
  offset : Nat
  token : Token
deriving DecidableEq, Repr

/-- Reads at most `n` tokens, up to the end of the text in a mode that closes blocks. -/
def readUpTo : Nat → Mode → Scanner → List Reading × Scanner
  | 0, _, s => ([], s)
  | n + 1, mode, s =>
    let (next, s') := s.bump mode
    let reading := ⟨mode, s.offset, next.token⟩
    if next.token.kind = .eof && mode.isIndentSensitive then ([reading], s')
    else
      let (readings, s'') := readUpTo n (nextMode mode next.token.kind) s'
      (reading :: readings, s'')

/-- Reads the whole text. The end can be met once in a mode that does not close blocks, and after
each token that closes one. -/
def read (s : Scanner) : List Reading × Scanner := readUpTo (2 * s.budget + 2) .statement s

end LineReader

end DialogueScript
