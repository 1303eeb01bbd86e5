import DialogueScript.Proofs.Grammar.Expression
import DialogueScript.Proofs.Scanner.LineStart

/-!
The rules that end a line leave the parser where a new line starts, or where nothing but trivia is
left of the text. A line break cannot stand next there in a mode that skips blanks and comments.
-/

namespace DialogueScript

namespace Parser

open ParserState

variable {α β : Type}

/-- A new line starts here, or nothing but trivia is left of the last one. -/
def AtLine (s : ParserState) : Prop := s.scanner.AtLine

/-- The last line is over: nothing of the next one has been looked at, or there is none. -/
def Ended (s : ParserState) : Prop := s.scanner.Ended

section
variable {s : ParserState} (hg : s.Good)
include hg

lemma AtLine.kind_ne (h : AtLine s) (mode : Mode) (hb : mode.skipsBlanks = true)
    (hc : mode.allowsComments = true) : s.kindAt mode ≠ .newline :=
  Scanner.AtLine.kind_ne hg.scanner.toSane h mode hb hc

lemma Ended.kind_ne (h : Ended s) (mode : Mode) (hb : mode.skipsBlanks = true)
    (hc : mode.allowsComments = true) : s.kindAt mode ≠ .newline :=
  Scanner.AtLine.kind_ne hg.scanner.toSane (Scanner.Ended.atLine hg.scanner.toSane h) mode hb hc

/-- Tokens that open and close blocks are taken at the start of a line. -/
lemma atLine_take {mode : Mode} (hk : s.kindAt mode = .indent ∨ s.kindAt mode = .dedent) :
    AtLine (s.take mode) :=
  Scanner.atLine_of_structural hg.scanner.toSane hk

lemma ended_take {mode : Mode} (hk : s.kindAt mode = .newline) : Ended (s.take mode) :=
  Scanner.ended_of_newline hg.scanner.toSane hk

lemma ended_look {mode : Mode} (hk : s.kindAt mode = .eof) : Ended (s.look mode) :=
  .inr (Scanner.eof_of_eof hg.scanner.toSane hk)

lemma after_eatNewline : eatNewline.after s =
    if s.kindAt .text = .newline then s.take .text else s.look .text := by
  rw [eatNewline, after_bind, after_pure, hg.after_eat .text (by simp)]

/-- Where the text of a line ends, so does the line. -/
lemma ended_eatNewline (h : s.kindAt .text = .newline ∨ s.kindAt .text = .eof) :
    Ended (eatNewline.after s) := by
  rw [after_eatNewline hg]
  split
  · next hk => exact ended_take hg hk
  · next hk => exact ended_look hg (h.resolve_left hk)

/-- At the end of the text there is nothing to look for. -/
lemma ended_eatNewline_eof (h : s.kindAt .header = .eof) : Ended (eatNewline.after s) := by
  rw [after_eatNewline hg]
  split
  · next hk => exact ended_take hg hk
  · right
    change ((s.scanner.looking .text).ahead .header).token.kind = .eof
    rw [Scanner.ahead_looking_of_insensitive rfl]
    exact h

lemma kindAt_advanceLine : (advanceLine.after s).kindAt .text = .newline ∨
    (advanceLine.after s).kindAt .text = .eof := by
  obtain ⟨u, h1, -, h2, h3⟩ : ∃ u, u.Good ∧ Reads s u ∧ (isInLine .text).answer u = false ∧
      advanceLine.after s = u.look .text :=
    repeatWhile_done .text (fun s hg => by simp [hg]) (not_eof_of_inLine .text) hg
  rw [h3, kindAt_look]
  simp [h1] at h2
  by_cases hk : u.kindAt .text = .newline
  · exact .inl hk
  · exact .inr (h2 hk)

/-- The rest of a line is taken with its line break. -/
lemma ended_skipLine {mode : Mode} (h : mode = .text ∨ s.kindAt mode ≠ .newline) :
    Ended (eatNewline.after ((skipLine mode).after s)) := by
  have hlook := hg.look mode
  simp only [skipLine, after_bind, hg.answer_isAtLineEnd, hg.after_isAtLineEnd, after_ite,
    after_pure, after_node]
  split
  · have hu := Rule.good (advance mode) (good_start hlook)
    have hv := Rule.good advanceLine hu
    have hk := kindAt_advanceLine hu
    generalize advanceLine.after ((advance mode).after (s.look mode).start) = u at hv hk
    exact ended_eatNewline (good_complete hv _) hk
  · next hk =>
    simp only [Bool.not_eq_true', Bool.or_eq_false_iff, decide_eq_false_iff_not, not_and_or,
      not_not] at hk
    rcases hk with hk | hk
    · rcases h with rfl | h
      · exact ended_eatNewline hlook (by rw [kindAt_look]; exact .inl hk)
      · exact absurd hk h
    · exact ended_eatNewline_eof hlook (Scanner.eof_of_eof hg.scanner.toSane hk)

lemma ended_errorLine {mode : Mode} (message : String)
    (h : mode = .text ∨ s.kindAt mode ≠ .newline) :
    Ended (eatNewline.after ((errorLine mode message).after s)) := by
  have hu := Rule.good (error mode message) hg
  have hk := (Good.kindAt_errorOf hg mode .unexpectedToken message).1
  rw [← error] at hk
  rw [errorLine, after_bind]
  exact ended_skipLine hu (by rwa [hk])

lemma ended_endOfLine (mode : Mode) : Ended ((endOfLine mode).after s) := by
  have hlook := hg.look mode
  simp only [endOfLine, after_bind, hg.answer_isAt, hg.after_isAt, after_ite, after_pure,
    hlook.answer_eat, hlook.after_eat mode (show Kind.newline ≠ .eof by simp), kindAt_look,
    decide_eq_true_eq, take_look, look_look]
  split
  · next hk => exact ended_look hg hk
  · split
    · next hk => exact ended_take hg hk
    · next hk => exact ended_errorLine hlook _ (.inr (by rwa [kindAt_look]))

end

/-- A rule that takes its last line with its end. -/
class EndsLine (p : Parser α) : Prop where
  ended : ∀ ⦃s⦄, s.Good → Ended (p.after s)

lemma EndsLine.after (p : Parser α) [h : EndsLine p] {s : ParserState} (hg : s.Good) :
    Ended (p.after s) :=
  h.ended hg

instance (mode : Mode) : EndsLine (endOfLine mode) := ⟨fun _ hg => ended_endOfLine hg mode⟩

instance (p : Parser α) (f : α → Parser β) [Rule p] [hf : ∀ a, EndsLine (f a)] :
    EndsLine (p >>= f) :=
  ⟨fun _ hg => (hf _).ended (Rule.good p hg)⟩

lemma EndsLine.seq {p : Parser α} {f : α → Parser β} (hr : Rule p) (hf : ∀ a, EndsLine (f a)) :
    EndsLine (p >>= f) :=
  inferInstance

instance (p : Parser α) (a : β) [hp : EndsLine p] : EndsLine (p >>= fun _ => pure a) :=
  ⟨fun _ hg => hp.ended hg⟩

instance (k : Kind) (p : Parser α) [hp : EndsLine p] : EndsLine (node k p) :=
  ⟨fun _ hg => hp.ended (good_start hg)⟩

instance {c : Prop} [Decidable c] (p q : Parser α) [hp : EndsLine p] [hq : EndsLine q] :
    EndsLine (if c then p else q) := by
  split
  · exact hp
  · exact hq

/-- A rule that is run only under a condition, and what follows it in any case. -/
lemma EndsLine.optional {c : Prop} [Decidable c] {p : Parser Unit} {f : Unit → Parser β}
    (hr : Rule p) (hf : ∀ a, EndsLine (f a)) : EndsLine (if c then p >>= f else f ()) :=
  inferInstance

/-! ### Lines -/

section
variable (levels : Nat)

instance : EndsLine (lineRest levels) := by
  have : EndsLine (hashtags >>= fun _ => endOfLine .text) := inferInstance
  unfold lineRest
  refine .seq inferInstance fun b => ?_
  dsimp only
  split
  · refine .seq inferInstance fun command => ?_
    split <;> infer_instance
  · infer_instance

instance (first : Mode) : EndsLine (line levels first) := by
  rw [line]
  dsimp only
  infer_instance

end

end Parser

end DialogueScript
