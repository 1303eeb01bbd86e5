import DialogueScript.Kind

/-!
What the grammar expects next. There are no reserved words: the reader of a token says in which mode
it stands, and only the keywords of that mode are recognised.
-/

namespace DialogueScript

inductive Mode where
  /-- The start of a header line, a file hashtag or a body delimiter. -/
  | header
  /-- The value after `key:`, up to the end of the line. -/
  | headerValue
  /-- The value after `when:`. -/
  | whenHeader
  /-- The first token of a statement line; indentation is tracked here. -/
  | statement
  /-- Like `statement`, but a blank line at the current position is a token of its own. -/
  | afterOption
  /-- Dialogue text. -/
  | text
  /-- Directly after `#`. -/
  | hashtag
  /-- Directly after `<<`, and the keyword slots of commands. -/
  | command
  /-- The free-form body of a command. -/
  | commandText
  /-- Expressions. -/
  | expr
  /-- A bare name, where no word is a keyword. -/
  | name
deriving DecidableEq, Repr, Inhabited

namespace Mode

def all : List Mode :=
  [.header, .headerValue, .whenHeader, .statement, .afterOption, .text, .hashtag, .command,
   .commandText, .expr, .name]

def label : Mode → String
  | .header => "Header"
  | .headerValue => "HeaderValue"
  | .whenHeader => "WhenHeader"
  | .statement => "Statement"
  | .afterOption => "AfterOption"
  | .text => "Text"
  | .hashtag => "Hashtag"
  | .command => "Command"
  | .commandText => "CommandText"
  | .expr => "Expr"
  | .name => "Name"

def ofLabel? (s : String) : Option Mode := all.find? (·.label = s)

/-- Whether the indentation of a new line is compared with the open blocks. -/
def isIndentSensitive : Mode → Bool
  | .statement | .afterOption => true
  | _ => false

/-- Whether `//` starts a comment. -/
def allowsComments : Mode → Bool
  | .command | .commandText | .expr | .name => false
  | _ => true

/-- Whether blanks in front of a token are trivia. -/
def skipsBlanks : Mode → Bool
  | .text | .hashtag | .commandText => false
  | _ => true

end Mode

end DialogueScript
