import DialogueScript.Text.Basic

/-!
Blanks, line breaks and comments. A line ends at `\n`, at `\r\n`, or at an `\r` that stands alone,
and a comment runs from `//` to the end of its line.
-/

namespace DialogueScript

/-- Spaces and tabs, the only characters that can indent a line or separate words. -/
def isBlank (c : Char) : Bool := c = ' ' || c = '\t'

def isLineBreak (c : Char) : Bool := c = '\n' || c = '\r'

namespace Text

/-- The number of characters in the line break at the start of a text, if one is there. -/
def lineBreak? : Text → Option Nat
  | '\r' :: '\n' :: _ => some 2
  | '\r' :: _ => some 1
  | '\n' :: _ => some 1
  | _ => none

def atLineEnd (t : Text) : Bool := t.isEmpty || (lineBreak? t).isSome

def startsComment (t : Text) : Bool := startsWith t "//"

/-- A text up to its first line break. -/
def firstLine (t : Text) : Text := t.takeWhile (!isLineBreak ·)

/-- A text without the blanks it begins with. -/
def dropBlanks (t : Text) : Text := t.dropWhile isBlank

/-- A text without the blanks it ends with. -/
def trimEnd (t : Text) : Text := (t.reverse.dropWhile isBlank).reverse

end Text

end DialogueScript
