import DialogueScript.Proofs.Grammar.Siblings

/-!
Rules that only add trees to those that are there. Such a rule does the same above any trees, and it
leaves them below the ones that it adds.
-/

set_option synthInstance.maxSize 512

namespace DialogueScript

namespace Change

/-- The ends of the two texts are the same. -/
def SameTail (c : Change) : Prop := c.oldTail = [] ∧ c.newTail = []

end Change

namespace ParserState

open DialogueScript.Parser

lemma sees_of_sameTail {c : Change} (hc : c.SameTail) (s : ParserState) : s.Sees c := .inl hc

/-- Two states that a rule cannot tell apart, except for the trees below those that were added. -/
structure AlikeAbove (c : Change) (xs xs' : List Tree) (s s' : ParserState) : Prop where
  abreast : Abreast c s s'
  inner : ∃ ys, s.forest.inner = ys ++ xs ∧ s'.forest.inner = ys ++ xs'

namespace AlikeAbove

variable {c : Change} {xs xs' : List Tree} {s s' : ParserState}

lemma good (h : AlikeAbove c xs xs' s s') : s.Good := h.abreast.good

lemma good' (h : AlikeAbove c xs xs' s s') : s'.Good := h.abreast.good'

lemma kindAt_eq (h : AlikeAbove c xs xs' s s') (hc : c.SameTail) (mode : Mode) :
    s.kindAt mode = s'.kindAt mode :=
  Agree.kindAt_eq h.abreast (sees_of_sameTail hc _)

lemma look (h : AlikeAbove c xs xs' s s') (hc : c.SameTail) (mode : Mode) :
    AlikeAbove c xs xs' (s.look mode) (s'.look mode) :=
  ⟨Agree.look h.abreast (sees_of_sameTail hc _), h.inner⟩

lemma take (h : AlikeAbove c xs xs' s s') (hc : c.SameTail) {mode : Mode}
    (hk : s.kindAt mode ≠ .eof) :
    AlikeAbove c xs xs' (s.take mode) (s'.take mode) := by
  have htoken : (s.scanner.ahead mode).token = (s'.scanner.ahead mode).token :=
    (h.abreast.scanner.ahead_same h.abreast.good.scanner h.abreast.good'.scanner (.inl hc)).token
  have htake : Agree c (s.start.take mode) (s'.start.take mode) :=
    Agree.take h.abreast (sees_of_sameTail hc _) hk
  obtain ⟨ys, h1, h2⟩ := h.inner
  refine ⟨htake.setForest rfl, .leaf (s.scanner.ahead mode).token :: ys, ?_, ?_⟩
  · simp [ParserState.take, Forest.add, h1]
  · simp [ParserState.take, Forest.add, h2, htoken]

lemma report (h : AlikeAbove c xs xs' s s') {r r' : Range} (e : GrammarError) (m : String)
    (hr : ∃ x : Range, r = ⟨c.oldBase + x.start, c.oldBase + x.stop⟩ ∧
      r' = ⟨c.newBase + x.start, c.newBase + x.stop⟩) :
    AlikeAbove c xs xs' (s.report r e m) (s'.report r' e m) := by
  have hreport := Agree.report h.abreast e m hr
  have hstart : ∀ (u : ParserState) (r : Range), u.start.report r e m = (u.report r e m).start := by
    intro u r
    have hc : u.start.cancelled = u.cancelled := rfl
    rw [ParserState.report, ParserState.report, hc]
    split <;> rfl
  refine ⟨by rwa [hstart, hstart] at hreport, ?_⟩
  rw [forest_report, forest_report]
  exact h.inner

lemma budget_eq (h : AlikeAbove c xs xs' s s') (hc : c.SameTail) :
    s.scanner.budget = s'.scanner.budget := by
  obtain ⟨x, h1, h2⟩ := h.abreast.scanner.rest
  rw [hc.1] at h1
  rw [hc.2] at h2
  have hrest : s.scanner.rest = s'.scanner.rest := h1.trans h2.symm
  have hstack : s.scanner.stack = s'.scanner.stack := h.abreast.scanner.stack
  rw [Scanner.budget, Scanner.budget, hrest, hstack]

end AlikeAbove

end ParserState

namespace Parser

open ParserState

variable {α β σ : Type}

/-- A rule that only adds trees. -/
class Framed (p : Parser α) : Prop where
  frame : ∀ ⦃c xs xs' s s'⦄, AlikeAbove c xs xs' s s' → c.SameTail →
    p.answer s = p.answer s' ∧ AlikeAbove c xs xs' (p.after s) (p.after s')

instance Framed.pure (a : α) : Framed (Pure.pure a : Parser α) := ⟨fun _ _ _ _ _ h _ => ⟨rfl, h⟩⟩

instance Framed.bind (p : Parser α) (f : α → Parser β) [hp : Framed p] [hf : ∀ a, Framed (f a)] :
    Framed (p >>= f) where
  frame c xs xs' s s' h hc := by
    obtain ⟨h1, h2⟩ := hp.frame h hc
    rw [answer_bind, answer_bind, after_bind, after_bind, ← h1]
    exact (hf _).frame h2 hc

lemma Framed.seq {p : Parser α} {f : α → Parser β} (hp : Framed p) (hf : ∀ a, Framed (f a)) :
    Framed (p >>= f) :=
  inferInstance

instance Framed.ite {c : Prop} [Decidable c] (p q : Parser α) [hp : Framed p] [hq : Framed q] :
    Framed (if c then p else q) := by
  split
  · exact hp
  · exact hq

section
variable (mode : Mode)

instance : Framed (peekKind mode) where
  frame c xs xs' s s' h hc := by
    rw [h.good.answer_peekKind, h.good'.answer_peekKind, h.good.after_peekKind,
      h.good'.after_peekKind]
    exact ⟨h.kindAt_eq hc mode, h.look hc mode⟩

instance (kind : Kind) : Framed (isAt mode kind) := by
  unfold isAt
  infer_instance

instance : Framed (isAtLineEnd mode) := by
  unfold isAtLineEnd
  infer_instance

instance : Framed (advance mode) where
  frame c xs xs' s s' h hc := by
    refine ⟨rfl, ?_⟩
    rw [h.good.after_advance, h.good'.after_advance, ← h.kindAt_eq hc mode]
    split
    · exact h.look hc mode
    · exact h.take hc ‹_›

instance (kind : Kind) : Framed (eat mode kind) := by
  unfold eat
  infer_instance

instance (e : GrammarError) (m : String) : Framed (errorOf mode e m) where
  frame c xs xs' s s' h hc := by
    refine ⟨rfl, ?_⟩
    rw [h.good.after_errorOf, h.good'.after_errorOf, ← h.kindAt_eq hc mode]
    split
    · exact h.look hc mode
    · exact (h.look hc mode).report e m (Agree.rangeAt_eq h.abreast (sees_of_sameTail hc _))

instance (m : String) : Framed (error mode m) := by
  unfold error
  infer_instance

instance (kind : Kind) (m : String) : Framed (expect mode kind m) := by
  unfold expect
  infer_instance

end

instance (k : Kind) (p : Parser α) [hp : Rule p] : Framed (node k p) where
  frame c xs xs' s s' h hc := by
    obtain ⟨h1, h2⟩ := hp.agrees.agree h.abreast trivial trivial (sees_of_sameTail hc _)
    obtain ⟨ys, h3, h4⟩ := h.inner
    refine ⟨h1, h2.setForest rfl, .node k (p.after s.start).forest.trees :: ys, ?_, ?_⟩
    · rw [after_node, hp.reads.inner_complete h.good, h3]
      rfl
    · rw [after_node, hp.reads.inner_complete h.good', h4, Forest.trees, Forest.trees, h2.inner]
      rfl

lemma Framed.loopUpTo {step : σ → Parser (ForInStep σ)} (h : ∀ a, Framed (step a)) (n : Nat)
    (a : σ) :
    Framed (loopUpTo step n a) := by
  induction n generalizing a with
  | zero => exact .pure a
  | succ n ih =>
    rw [Parser.loopUpTo]
    refine .seq (h a) fun next => ?_
    cases next
    · exact .pure _
    · exact ih _

instance (step : σ → Parser (ForInStep σ)) (a : σ) [h : ∀ a, Framed (step a)] :
    Framed (loop step a) where
  frame c xs xs' s s' hl hc := by
    have heq : ∀ u, (loop step a).answer u = (loopUpTo step (u.scanner.budget + 1) a).answer u ∧
        (loop step a).after u = (loopUpTo step (u.scanner.budget + 1) a).after u :=
          fun _ => ⟨rfl, rfl⟩
    rw [(heq s).1, (heq s).2, (heq s').1, (heq s').2, ← hl.budget_eq hc]
    exact (Framed.loopUpTo h _ a).frame hl hc

/-- An error may be reported at a token that was looked at earlier. -/
lemma Framed.ranged (mode : Mode) {p : Parser α} (hp : Framed p)
    (problem : α → Option (GrammarError × String)) :
    Framed (peekRange mode >>= fun r => p >>= fun a => reportAt r (problem a) >>= fun _ =>
      Pure.pure a) where
  frame c xs xs' s s' h hc := by
    simp only [answer_bind, after_bind, h.good.answer_peekRange, h.good.after_peekRange,
      h.good'.answer_peekRange, h.good'.after_peekRange, answer_pure, after_pure]
    obtain ⟨h1, h2⟩ := hp.frame (h.look hc mode) hc
    rw [← h1]
    refine ⟨rfl, ?_⟩
    rcases problem (p.answer (s.look mode)) with _ | ⟨e, m⟩
    · exact h2
    · exact h2.report e m (Agree.rangeAt_eq h.abreast (sees_of_sameTail hc _))

/-! ### Lines and headers -/

section
variable (mode : Mode) (message : String)

instance : Framed (skipLine mode) := by
  unfold skipLine
  infer_instance

instance : Framed (errorLine mode message) := by
  unfold errorLine
  infer_instance

instance : Framed eatNewline := by
  unfold eatNewline
  infer_instance

instance : Framed (endOfLine mode) := by
  unfold endOfLine
  infer_instance

end

instance (titles : Nat) (k : Kind) : Framed (headerAt titles k) := by
  have : Framed titleHeader := by
    unfold titleHeader titleRest
    infer_instance
  have : Framed whenHeader := by
    unfold whenHeader
    infer_instance
  have : Framed genericHeader := by
    unfold genericHeader headerRest
    infer_instance
  unfold headerAt
  split <;> infer_instance

instance (titles : Nat) : Framed (headerStep titles) := by
  unfold headerStep
  infer_instance

instance : Framed headers := by
  unfold headers
  infer_instance

instance : Framed nodeHeaders := .ranged .header inferInstance titleProblem

instance : Framed nodeTail := by
  have : Framed body := by
    unfold body
    infer_instance
  unfold nodeTail
  infer_instance

end Parser

end DialogueScript
