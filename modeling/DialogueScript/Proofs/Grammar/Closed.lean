import DialogueScript.Proofs.Grammar.Outside
import DialogueScript.Proofs.Grammar.Siblings
import DialogueScript.Proofs.Grammar.Unwinding
import DialogueScript.Proofs.Grammar.WholeLines
import DialogueScript.Proofs.Scanner.Keywords
import DialogueScript.Proofs.Scanner.TokenShape

/-!
Behind every child of the root all blocks are closed again. What ends a body closes them as the
first thing on its line. Only where the last line of the text has no break and a comment is left of
it, the end of the text is found without a new line that would close them.
-/

set_option synthInstance.maxSize 512

namespace DialogueScript

namespace Scanner

/-- The last line is read up to a comment, and no break follows. -/
structure Hanging (s : Scanner) : Prop where
  midLine : s.lineStart = false
  spent : s.rest.drop (gapLength true true s.rest) = []
  comment : Text.dropBlanks s.rest ≠ []

namespace Hanging

variable {s : Scanner} (h : s.Hanging)
include h

lemma settle (mode : Mode) : s.settle mode = s := by
  cases hm : mode.isIndentSensitive
  · exact settle_of_insensitive s hm
  · have hend : s.atUnterminatedEnd = false := by
      simp [atUnterminatedEnd, List.isEmpty_eq_false_iff.2 h.comment]
    have hmid := h.midLine
    rw [settle_of_sensitive s hm, hend]
    obtain ⟨config, rest, offset, stack, lineStart, line, peeked, diagnostics⟩ := s
    simp at hmid
    simp [hmid]

lemma looking (mode : Mode) : (s.looking mode).Hanging := by
  rw [Scanner.looking, h.settle]
  exact ⟨h.midLine, h.spent, h.comment⟩

/-- Nothing but the end of the text is found behind the comment. -/
lemma kind_eq_eof {mode : Mode} (hb : mode.skipsBlanks = true) (hc : mode.allowsComments = true) :
    (s.ahead mode).token.kind = .eof := by
  have hahead : s.ahead mode = s.content mode := by
    rw [ahead, h.settle, scan, h.midLine]
    rfl
  rw [hahead, content_token, body_of_midLine s mode h.midLine, hb, hc, h.spent, Lexeme.next_nil]
  rfl

/-- What is left of the text is blanks and a comment. -/
lemma comment_left : Text.startsComment (Text.dropBlanks s.rest) = true ∧ Text.OneLine s.rest := by
  have hgap := concat_gap true true s.rest
  rw [List.take_of_length_le (List.drop_eq_nil_iff.1 h.spent)] at hgap
  refine ⟨?_, hgap ▸ Trivia.oneLine_gap true true s.rest⟩
  by_contra hnone
  have hdrop := drop_blanks s.rest
  have hlength : gapLength true true s.rest = gapLength true false s.rest := by
    simp only [gapLength, gap, if_true, Bool.false_eq_true, if_false, List.append_nil] at hdrop ⊢
    rw [commentTrivia, hdrop, if_neg hnone, List.append_nil]
  have hover := h.spent
  rw [hlength, hdrop] at hover
  exact h.comment hover

end Hanging

variable {s : Scanner}

/-- What ends a body has closed all blocks, unless it is the end of a text with a comment in
front. -/
lemma closed_or_hanging (hs : s.Sane) (hat : s.AtLine) (hc : s.ClosesAll)
    (hk : (s.ahead .statement).token.kind = .eof ∨ (s.ahead .statement).token.kind = .bodyEnd ∨
      (s.ahead .statement).token.kind = .titleKw) : s.stack = .empty ∨ s.Hanging := by
  have hm : Mode.isIndentSensitive .statement = true := rfl
  by_cases hstart : (s.settle .statement).lineStart = true
  · have hahead : (s.settle .statement).ahead .statement = s.ahead .statement := by
      rw [ahead, settle_settle, ahead]
    have := (hc.settle .statement).stack_eq_empty (hs.settle .statement) hstart hm (by rwa [hahead])
    exact .inl (by rwa [settle_stack] at this)
  · rw [settle_of_sensitive s hm] at hstart
    obtain ⟨hmid, hend⟩ : s.lineStart = false ∧ s.atUnterminatedEnd = false := by simpa using hstart
    have hover := hat.resolve_left (by simp [hmid])
    by_cases hcomment : Text.dropBlanks s.rest = []
    · left
      have hnone : s.stack.widths = [] := by
        simpa [atUnterminatedEnd, hcomment, IndentStack.isEmpty] using hend
      exact congrArg IndentStack.mk hnone
    · exact .inr ⟨hmid, hover, hcomment⟩

end Scanner

namespace Parser

open ParserState

variable {s : ParserState}

/-- No block is open, or the text is over behind a comment. -/
def BlocksClosed (s : ParserState) : Prop := s.scanner.Outside ∨ s.scanner.Hanging

lemma BlocksClosed.complete (h : BlocksClosed s) (k : Kind) : BlocksClosed (s.complete k) := h

lemma BlocksClosed.outside (h : BlocksClosed s) (hk : s.kindAt .header ≠ .eof) :
    s.scanner.Outside :=
  h.resolve_right fun hhanging => hk (hhanging.kind_eq_eof rfl rfl)

lemma closed_bodyClose (hg : s.Good) (hs : s.scanner.stack = .empty ∨ s.scanner.Hanging)
    (hk : s.kindAt .statement = .eof ∨ s.kindAt .statement = .bodyEnd ∨
      s.kindAt .statement = .titleKw) : BlocksClosed (bodyClose.after s) := by
  rcases hs with hstack | hhanging
  · exact .inl (outside_bodyClose hg hstack hk)
  · -- the end marker is missing, which is reported where the scanner stands
    have heof : s.kindAt .statement = .eof := hhanging.kind_eq_eof rfl rfl
    have hkeeps := (Good.errorOf_keeps (hg.look .statement) .statement .missingEndMarker
      "expected `===`").1
    rw [bodyClose, after_bind, hg.answer_eat, hg.after_eat .statement (by simp), heof]
    simp only [show (Kind.eof = .bodyEnd) = False by simp, decide_false,
      Bool.false_eq_true, if_false, after_bind, after_pure]
    rw [BlocksClosed, hkeeps, look_look]
    exact .inr (hhanging.looking .statement)

lemma closed_body (hg : s.Good) (hq : s.Quiet) (hc : s.scanner.ClosesAll) :
    BlocksClosed (body.after s) := by
  have hs := good_start hg
  have hstart : s.start.Quiet := ⟨hq.never, hq.running⟩
  have hhead : Reads s.start (bodyHead.after s.start) := Rule.reads hs
  have hat := EndsLine.after bodyHead hs
  rw [body, after_node, after_bind, after_bind]
  generalize bodyHead.after s.start = u at hhead hat ⊢
  have hu := (hhead.follows hs).good
  have hreads : Reads u (bodyStatements.after u) := Rule.reads hu
  have hends := bodyStatements_ends hu
  obtain ⟨hv, hat'⟩ :=
    takesLines_bodyStatements hu (Scanner.Ended.atLine hu.scanner.toSane hat) trivial
  generalize bodyStatements.after u = v at hreads hends hv hat' ⊢
  have hquiet := (hreads.follows hu).quiet ((hhead.follows hs).quiet hstart)
  have hkind := hends.resolve_left (Bool.eq_false_iff.1 hquiet.running)
  have hclosesAll := hreads.closesAll hu (hhead.closesAll hs hc)
  have hclosed := Scanner.closed_or_hanging hv.scanner.toSane hat' hclosesAll hkind
  exact (closed_bodyClose hv hclosed hkind).complete .body

lemma closed_nodeTail (hg : s.Good) (hq : s.Quiet) (hc : s.scanner.ClosesAll)
    (ho : s.scanner.Outside) : BlocksClosed (nodeTail.after s) := by
  have hlook := hg.look .header
  rw [nodeTail, after_bind, hg.after_isAt]
  split
  · have hbody := closed_body hlook ⟨hq.never, hq.running⟩ (hc.settle .header)
    rw [after_bind, after_ite, after_pure, after_pure, ite_self]
    exact hbody
  · exact .inl (Flat.flat (p := error .header "expected `---`") hlook (flat_look .header hg ho).2).2

/-- **A child of the root closes all blocks that it opens.** -/
lemma closed_child (k : Kind) (hg : s.Good) (hq : s.Quiet) (hc : s.scanner.ClosesAll)
    (ho : s.scanner.Outside) : BlocksClosed ((child k).after s) := by
  unfold child
  split
  · exact .inl (Flat.flat hg ho).2
  split
  · have hs := good_start hg
    have hreads := reading_nodeHeaders hs
    have hstart : s.start.Quiet := ⟨hq.never, hq.running⟩
    have hquiet := (hreads.follows hs).quiet hstart
    obtain ⟨hu, ho'⟩ := Flat.flat (p := nodeHeaders) hs ho
    rw [dialogueNode, after_bind, after_pure, after_nodeOf, after_bind]
    exact (closed_nodeTail hu hquiet (hreads.closesAll hs hc) ho').complete _
  · exact .inl (Flat.flat hg ho).2

end Parser

end DialogueScript
