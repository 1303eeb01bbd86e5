import DialogueScript.Kind
import DialogueScript.Text.Basic

/-!
Tokens, together with the blanks, line breaks and comments around them. The text of a token is that
of the token with all its trivia, which is given by sizes. A token in a tree does not know its
position: where it starts is known to whoever holds the text before it. A token that is being read
knows where its own text stands, and from that and its trivia where it starts and ends.
-/

namespace DialogueScript

inductive TriviaKind where
  /-- Spaces and tabs. -/
  | whitespace
  /-- The line break of a skipped line. -/
  | newline
  /-- From `//` to the end of the line. -/
  | comment
deriving DecidableEq, Repr, Inhabited

def TriviaKind.kind : TriviaKind → Kind
  | .whitespace => .whitespace
  | .newline => .lineBreak
  | .comment => .comment

/-- A piece of trivia. -/
structure Trivia where
  kind : TriviaKind
  text : Text
deriving DecidableEq, Repr, Inhabited

/-- Trivia of which only the kinds and sizes are known. A piece may end inside a character. -/
abbrev TriviaSizes := List (TriviaKind × Nat)

namespace TriviaSizes

def total : TriviaSizes → Nat
  | [] => 0
  | (_, size) :: ps => size + total ps

/-- The ranges of the pieces, of which the first starts at `position`. -/
def ranges (position : Nat) : TriviaSizes → List (TriviaKind × Range)
  | [] => []
  | (kind, size) :: ps => (kind, .ofSize position size) :: ranges (position + size) ps

end TriviaSizes

namespace Trivia

/-- The text of some pieces in a row. -/
def concat (ps : List Trivia) : Text := ps.flatMap (·.text)

def sizes (ps : List Trivia) : TriviaSizes := ps.map fun p => (p.kind, Text.size p.text)

theorem total_sizes (ps : List Trivia) : (sizes ps).total = Text.size (concat ps) := by
  induction ps with
  | nil => rfl
  | cons p ps ih =>
    have h : concat (p :: ps) = p.text ++ concat ps := rfl
    rw [h, Text.size_append, ← ih]
    rfl

end Trivia

structure Token where
  leading : TriviaSizes := []
  kind : Kind
  /-- The text with the trivia on both sides. -/
  fullText : Text
  trailing : TriviaSizes := []
deriving DecidableEq, Repr, Inhabited

namespace Token

/-- A token with its own text and the trivia around it. -/
def ofParts (leading : List Trivia) (kind : Kind) (text : Text) (trailing : List Trivia) :
    Token where
  leading := Trivia.sizes leading
  kind
  fullText := Trivia.concat leading ++ text ++ Trivia.concat trailing
  trailing := Trivia.sizes trailing

def size (t : Token) : Nat := Text.size t.fullText

/-- The range of the token's own text, if the token with its trivia starts at `position`. -/
def range (t : Token) (position : Nat) : Range :=
  .ofSize (position + t.leading.total) (t.size - (t.leading.total + t.trailing.total))

/-- The range with the trivia on both sides, if the token with its trivia starts at `position`. -/
def fullRange (t : Token) (position : Nat) : Range := .ofSize position t.size

/-- The token's own text. There is none if the trivia is longer than the whole token or meets the
own text inside a character. -/
def text? (t : Token) : Option Text :=
  if t.leading.total + t.trailing.total ≤ t.size then Text.slice? t.fullText (t.range 0) else none

/-- The token's own text, for a token that has one. -/
def text (t : Token) : Text := t.text?.getD []

theorem range_ofParts (leading : List Trivia) (kind : Kind) (own : Text) (trailing : List Trivia)
    (position : Nat) : (ofParts leading kind own trailing).range position =
      .ofSize (position + Text.size (Trivia.concat leading)) (Text.size own) := by
  simp only [range, size, ofParts, Trivia.total_sizes, Text.size_append]
  congr 1
  omega

theorem text?_ofParts (leading : List Trivia) (kind : Kind) (own : Text) (trailing : List Trivia) :
    (ofParts leading kind own trailing).text? = some own := by
  have h : Text.size (Trivia.concat leading) + Text.size (Trivia.concat trailing) ≤
      Text.size (Trivia.concat leading ++ own ++ Trivia.concat trailing) := by
    simp only [Text.size_append]
    omega
  rw [text?, range_ofParts, Nat.zero_add]
  simp only [size, ofParts, Trivia.total_sizes]
  rw [if_pos h]
  exact Text.slice?_append _ _ _

@[simp] theorem text_ofParts (leading : List Trivia) (kind : Kind) (own : Text)
    (trailing : List Trivia) : (ofParts leading kind own trailing).text = own := by
  rw [text, text?_ofParts]
  rfl

end Token

/-- A token as it is read, with the range of its own text. -/
structure PlacedToken where
  token : Token
  kindRange : Range
deriving DecidableEq, Repr, Inhabited

instance : Coe PlacedToken Token := ⟨PlacedToken.token⟩

/-- The range with the trivia on both sides. -/
def PlacedToken.range (t : PlacedToken) : Range :=
  ⟨t.kindRange.start - t.token.leading.total, t.kindRange.stop + t.token.trailing.total⟩

end DialogueScript
