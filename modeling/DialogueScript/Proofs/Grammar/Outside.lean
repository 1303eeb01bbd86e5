import DialogueScript.Proofs.Grammar.Flat

/-!
Rules that are used outside of bodies. They never compare an indentation, so where no block is open
they open none.
-/

namespace DialogueScript

namespace Scanner

/-- No block is open, and the indentation of the line asks for nothing. -/
structure Outside (s : Scanner) : Prop where
  stack : s.stack = .empty
  planDone : s.PlanDone

namespace Outside

variable {s : Scanner} {mode : Mode}

/-- Where a token of the text itself stands next, the indentation asks for nothing more. -/
lemma looking (hg : s.Sane) (hstack : s.stack = .empty)
    (h1 : (s.ahead mode).token.kind.isStructural = false)
    (h2 : (s.ahead mode).token.kind ≠ .errorToken) : (s.looking mode).Outside :=
  ⟨(settle_stack s mode).trans hstack, planDone_of_kind hg h1 h2⟩

/-- A token that the indentation does not ask for leaves the blocks alone. -/
lemma after (hg : s.Sane) (h : (s.settle mode).Outside) (hm : mode ≠ .afterOption) :
    (s.after mode).Outside := by
  have ht := hg.takes mode
  obtain ⟨hstack, hdone⟩ := h
  generalize s.settle mode = u, s.ahead mode = l, s.after mode = s' at ht hstack hdone
  cases ht with
  | dedent p hline hd => exact absurd (hdone p hline).1 (by omega)
  | blank p b t' hm' => exact absurd hm' hm
  | indent p w hline hd he => simp [(hdone p hline).2] at he
  | mismatch p _ hline hd he hl => simp [(hdone p hline).2] at he
  | content _ hidle hblank hl => exact ⟨hstack, by simp [PlanDone]⟩

end Outside

end Scanner

namespace Parser

open ParserState
open Scanner (Outside)

variable {α : Type}

lemma flat_look (mode : Mode) [hm : Fact (mode.isIndentSensitive = false)] {s : ParserState}
    (hg : s.Good) (h : s.scanner.Outside) : (s.look mode).Good ∧ (s.look mode).scanner.Outside := by
  refine ⟨hg.look mode, ?_⟩
  rw [ParserState.look, Scanner.looking, Scanner.settle_of_insensitive _ hm.out]
  exact ⟨h.stack, h.planDone⟩

/-- Where no block is open, a rule that compares no indentation opens none. -/
lemma Flat.flat {p : Parser α} [hp : Flat p] {s : ParserState} (hg : s.Good)
    (h : s.scanner.Outside) :
    (p.after s).Good ∧ (p.after s).scanner.Outside := by
  have hskims := hp.skims hg
  refine ⟨hskims.good hg, hskims.keeps hg h (fun u mode hu hm h => ?_) fun u mode hu hm h => ?_⟩
  · have : Fact (mode.isIndentSensitive = false) := ⟨hm⟩
    exact (flat_look mode hu h).2
  · have hset : (u.scanner.settle mode).Outside := by rwa [Scanner.settle_of_insensitive _ hm]
    have hne : mode ≠ .afterOption := by
      rintro rfl
      exact absurd hm (by decide)
    obtain ⟨h1, h2⟩ := hset.after hu.scanner.toSane hne
    exact ⟨h1, h2⟩

/-- The end marker of a body opens no block, and nothing is taken where it lacks. -/
lemma outside_bodyClose {s : ParserState} (hg : s.Good) (hstack : s.scanner.stack = .empty)
    (hk : s.kindAt .statement = .eof ∨ s.kindAt .statement = .bodyEnd ∨
      s.kindAt .statement = .titleKw) : (bodyClose.after s).scanner.Outside := by
  have hsane := hg.scanner.toSane
  have hlook : (s.scanner.looking .statement).Outside := by
    refine .looking hsane hstack ?_ ?_ <;> rw [← kindAt] <;> rcases hk with h | h | h <;>
      simp [h] <;> rfl
  rw [bodyClose, after_bind, hg.answer_eat, hg.after_eat .statement (by simp)]
  by_cases hend : s.kindAt .statement = .bodyEnd
  · have hafter : (s.scanner.after .statement).Outside :=
      .after hsane ⟨hlook.stack, hlook.planDone⟩ (by simp)
    have htake : (s.take .statement).scanner.Outside := ⟨hafter.stack, hafter.planDone⟩
    simp only [hend, decide_true, if_true, after_bind, after_pure]
    exact (Flat.flat (p := endOfLine .header) (hg.take .statement) htake).2
  · have hkeeps := (Good.errorOf_keeps (hg.look .statement) .statement .missingEndMarker
      "expected `===`").1
    simp only [hend, decide_false, Bool.false_eq_true, if_false, after_bind, after_pure]
    rw [hkeeps, look_look]
    exact hlook

end Parser

end DialogueScript
