import DialogueScript.Text.Basic

/-!
Line and column of a position. Only `\n` starts a new line here, both numbers count from zero, and
the column counts bytes.
-/

namespace DialogueScript

structure LineCol where
  line : Nat
  col : Nat
deriving DecidableEq, Repr, Inhabited

namespace LineCol

/-- The start of a text. -/
def zero : LineCol := ⟨0, 0⟩

/-- The position after one more character. -/
def step (p : LineCol) (c : Char) : LineCol :=
  if c = '\n' then ⟨p.line + 1, 0⟩ else ⟨p.line, p.col + c.utf8Size⟩

/-- Walks `n` bytes into a text, starting at position `p`. -/
def walk? (p : LineCol) : Text → Nat → Option LineCol
  | _, 0 => some p
  | [], _ + 1 => none
  | c :: cs, n + 1 =>
    if c.utf8Size ≤ n + 1 then walk? (p.step c) cs (n + 1 - c.utf8Size) else none

/-- The line and column of a position, which must lie in the text and not inside a character. -/
def of? (t : Text) (position : Nat) : Option LineCol := walk? zero t position

/-- The way people count: from one. -/
def display (p : LineCol) : String := s!"{p.line + 1}:{p.col + 1}"

end LineCol

end DialogueScript
