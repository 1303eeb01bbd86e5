import DialogueScript.Scanner.Mode
import DialogueScript.Text.Line

/-!
Words, and which of them are keywords where.
-/

namespace DialogueScript

def isWordStart (c : Char) : Bool := c.isAlpha || c = '_'

def isWordPart (c : Char) : Bool := c.isAlphanum || c = '_'

/-- The word at the start of a text. -/
def Text.word? : Text → Option Text
  | [] => none
  | c :: cs => if isWordStart c then some (c :: cs.takeWhile isWordPart) else none

/-- The kind among `ks` that a word spells. -/
def keywordIn? (ks : List Kind) (word : Text) : Option Kind := ks.find? (·.chars = word)

/-- The words that can follow `<<`, with the operator words inside commands. -/
def commandKeywords : List Kind :=
  [.ifKw, .elseifKw, .elseKw, .endifKw, .onceKw, .endonceKw, .setKw, .callKw, .declareKw, .jumpKw,
   .detourKw, .returnKw, .enumKw, .caseKw, .endenumKw, .toKw, .asKw]

def exprKeywords : List Kind :=
  [.notKw, .andKw, .orKw, .xorKw, .lteKw, .gteKw, .ltKw, .gtKw, .isKw, .eqKw, .neqKw, .trueKw,
   .falseKw, .nullKw]

def whenKeywords : List Kind := [.alwaysKw, .onceKw, .ifKw]

def headerKeywords : List Kind := [.titleKw, .whenKw]

/-- The keywords of a mode. -/
def Mode.keywords : Mode → List Kind
  | .command => commandKeywords
  | .expr => exprKeywords
  | .whenHeader => whenKeywords ++ exprKeywords
  | _ => []

def commandKeyword? (word : Text) : Option Kind := keywordIn? commandKeywords word

/-- The keyword of the command whose text follows, which must start right after its `<<`. -/
def commandKeywordAt? (t : Text) : Option Kind := do
  let word ← Text.word? (Text.dropBlanks t)
  let keyword ← commandKeyword? word
  if keyword = .toKw || keyword = .asKw then none else some keyword

/-- The `title` or `when` at the start of a text, if a colon follows it. -/
def headerKeyword? (t : Text) : Option Kind := do
  let word ← Text.word? t
  let keyword ← keywordIn? headerKeywords word
  if (Text.dropBlanks (t.drop word.length)).head? = some ':' then some keyword else none

end DialogueScript
