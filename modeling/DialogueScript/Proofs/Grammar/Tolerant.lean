import DialogueScript.Proofs.Grammar.Adds
import DialogueScript.Proofs.Grammar.FirstLine
import DialogueScript.Proofs.Grammar.Reported
import DialogueScript.Proofs.Scanner.BlankLine

/-!
What the rules for names and for recovery add: tokens, names and errors. A property of trees that
goes from the children of a name or of an error to the node is kept by all of them. Where no command
can start, it need not hold of a `<<`.
-/

set_option synthInstance.maxSize 4096

namespace DialogueScript

namespace Parser

open ParserState

/-- A property of trees that holds of every token but a blank line and a `<<`, and goes from what a
name holds to the name. It goes to an error if the keyword of an enum is not in it. -/
class Lenient (P : Tree → Prop) : Prop where
  leaf : ∀ token : Token, token.kind ≠ .blankLine → token.kind ≠ .commandStart → P (.leaf token)
  name : ∀ cs, (∀ c ∈ cs, P c) → P (.node .name cs)
  error : ∀ cs, (∀ c ∈ cs, P c ∧ c.kind ≠ .enumKw) → P (.node .error cs)

/-- A property of trees that holds of every token but a blank line, and goes from what a name holds
to the name. It goes to an error if the keyword of an enum is not in it. -/
class Tolerant (P : Tree → Prop) : Prop where
  leaf : ∀ token : Token, token.kind ≠ .blankLine → P (.leaf token)
  name : ∀ cs, (∀ c ∈ cs, P c) → P (.node .name cs)
  error : ∀ cs, (∀ c ∈ cs, P c ∧ c.kind ≠ .enumKw) → P (.node .error cs)

instance (P : Tree → Prop) [hP : Tolerant P] : Lenient P :=
  ⟨fun token h _ => hP.leaf token h, hP.name, hP.error⟩

/-- The modes in which a blank line is no token. -/
class Blankless (mode : Mode) : Prop where
  ne : mode ≠ .afterOption

instance : Blankless .header := ⟨by simp⟩
instance : Blankless .headerValue := ⟨by simp⟩
instance : Blankless .whenHeader := ⟨by simp⟩
instance : Blankless .statement := ⟨by simp⟩
instance : Blankless .text := ⟨by simp⟩
instance : Blankless .hashtag := ⟨by simp⟩
instance : Blankless .command := ⟨by simp⟩
instance : Blankless .commandText := ⟨by simp⟩
instance : Blankless .expr := ⟨by simp⟩
instance : Blankless .name := ⟨by simp⟩

/-- The modes in which no word starts an enum. -/
class Wordless (mode : Mode) : Prop where
  ne : mode ≠ .command

instance : Wordless .header := ⟨by simp⟩
instance : Wordless .statement := ⟨by simp⟩
instance : Wordless .text := ⟨by simp⟩
instance : Wordless .expr := ⟨by simp⟩
instance : Wordless .name := ⟨by simp⟩

/-- The modes in which `<<` is no token. -/
class Markless (mode : Mode) : Prop where
  mem : mode = .command ∨ mode = .expr ∨ mode = .name

instance : Markless .command := ⟨.inl rfl⟩
instance : Markless .expr := ⟨.inr (.inl rfl)⟩
instance : Markless .name := ⟨.inr (.inr rfl)⟩

section
variable {ends : Bool} {P : Tree → Prop} (mode : Mode)

instance [Adds ends P (advance mode)] (kind : Kind) : Adds ends P (eat mode kind) := by
  unfold eat
  infer_instance

instance [Adds ends P (advance mode)] (kind : Kind) (m : String) :
    Adds ends P (expect mode kind m) := by
  unfold expect
  infer_instance

instance [Adds ends P (advance .expr)] (kinds : KindSet) : Adds ends P (advanceTo kinds) := by
  unfold advanceTo
  infer_instance

end

/-- What can stand in an error. -/
def ErrorPart (P : Tree → Prop) (t : Tree) : Prop := P t ∧ t.kind ≠ .enumKw

/-! ### Where no command can start -/

section
variable {α : Type} {ends : Bool} {P : Tree → Prop} [hP : Lenient P]

section
variable (mode : Mode) [hb : Blankless mode] [hm : Markless mode]

instance : Adds ends P (advance mode) where
  grown s hg := by
    rw [hg.after_advance]
    split
    · exact .of_same rfl rfl
    · exact .take hg (hP.leaf _ (hg.scanner.ahead_ne_blankLine hb.ne)
        (Scanner.ahead_ne_commandStart hg.scanner hm.mem))

instance [hw : Wordless mode] : Adds ends (ErrorPart P) (advance mode) where
  grown s hg := by
    rw [hg.after_advance]
    split
    · exact .of_same rfl rfl
    · exact .take hg ⟨hP.leaf _ (hg.scanner.ahead_ne_blankLine hb.ne)
        (Scanner.ahead_ne_commandStart hg.scanner hm.mem), Scanner.ahead_ne_enum hg.scanner hw.ne⟩

end

instance (p : Parser α) [Readable p] [Adds ends (ErrorPart P) p] :
    Adds ends (ErrorPart P) (node .error p) :=
  .inNode inferInstance (inferInstanceAs (Adds ends (ErrorPart P) p)) fun cs h =>
    ⟨hP.error cs h, by simp [Tree.kind]⟩

instance (p : Parser α) [Readable p] [Adds ends (ErrorPart P) p] : Adds ends P (node .error p) :=
  Adds.mono (P := ErrorPart P) inferInstance fun _ h => h.1

instance (mode : Mode) (message : String) (recovery : KindSet)
    [Adds ends (ErrorPart P) (advance mode)] :
    Adds ends P (errorRecover mode message recovery) := by
  unfold errorRecover
  infer_instance

instance (mode : Mode) [Adds ends P (advance mode)] : Adds ends P (commandEnd mode) := by
  unfold commandEnd
  infer_instance

instance (recovery : KindSet) : Adds ends P (name recovery) := by
  have : Adds ends P (node .name (advance .name)) := .inNode inferInstance inferInstance hP.name
  unfold name
  infer_instance

instance : Adds ends P eatEquals := by
  unfold eatEquals
  infer_instance

end

/-! ### Everywhere -/

section
variable {ends : Bool} {P : Tree → Prop} [hP : Tolerant P]

section
variable (mode : Mode) [hb : Blankless mode]

instance : Adds ends P (advance mode) where
  grown s hg := by
    rw [hg.after_advance]
    split
    · exact .of_same rfl rfl
    · exact .take hg (hP.leaf _ (hg.scanner.ahead_ne_blankLine hb.ne))

instance [hm : Wordless mode] : Adds ends (ErrorPart P) (advance mode) where
  grown s hg := by
    rw [hg.after_advance]
    split
    · exact .of_same rfl rfl
    · exact .take hg ⟨hP.leaf _ (hg.scanner.ahead_ne_blankLine hb.ne),
        Scanner.ahead_ne_enum hg.scanner hm.ne⟩

instance : Adds ends (ErrorPart P) advanceLine := by
  unfold advanceLine
  infer_instance

variable [Wordless mode] (message : String)

instance : Adds ends P (skipLine mode) := by
  unfold skipLine
  infer_instance

instance : Adds ends (ErrorPart P) (skipLine mode) := by
  unfold skipLine
  infer_instance

instance : Adds ends P (errorLine mode message) := by
  unfold errorLine
  infer_instance

instance : Adds ends (ErrorPart P) (errorLine mode message) := by
  unfold errorLine
  infer_instance

instance : Adds ends P (endOfLine mode) := by
  unfold endOfLine eatNewline
  infer_instance

end

instance : Adds ends P eatNewline := by
  unfold eatNewline
  infer_instance

instance : Adds ends (ErrorPart P) eatNewline := by
  unfold eatNewline
  infer_instance

/-! ### The ends of commands -/

instance : Adds ends P commandStart := by
  unfold commandStart
  infer_instance

instance : Adds ends P commandClose := by
  unfold commandClose
  infer_instance

instance (keyword kind : Kind) (message : String) :
    Adds true P (closeWith keyword kind message) := by
  unfold closeWith
  infer_instance

instance (keyword : Kind) : Adds ends P (strayClause keyword) := by
  unfold strayClause
  dsimp only
  infer_instance

instance : Adds ends P strayLine := by
  unfold strayLine
  infer_instance

end

end Parser

end DialogueScript
