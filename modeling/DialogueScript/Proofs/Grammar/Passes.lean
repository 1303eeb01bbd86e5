import DialogueScript.Proofs.Grammar.Course

/-!
Where a rule leads and what it leaves unreported, when neither its exact answer nor its trees
matter.
-/

namespace DialogueScript

namespace Parser

open ParserState

variable {α β σ : Type}

/-- From the place `q` a rule leads to the place `q'` and answers something with `A`. It reports
nothing, or nothing that one wants to keep. -/
def Passes (keep : Diagnostic → Bool) (q : Scanner → Prop) (p : Parser α) (A : α → Prop)
    (q' : Scanner → Prop) : Prop :=
  ∀ ⦃s : ParserState⦄, s.At q → A (p.answer s) ∧ (p.after s).At q' ∧
    (p.after s).diagnostics.filter keep = s.diagnostics.filter keep

namespace Passes

variable {q q' q'' : Scanner → Prop} {p : Parser α} {A : α → Prop} {B : β → Prop} {mode : Mode}
  {k : Kind} {w : Text} {keep : Diagnostic → Bool}

lemma of_course {a : α} {V : List Tree → Prop} (h : Course q [] p a V q' keep) (ha : A a) :
    Passes keep q p A q' := by
  intro s hs
  obtain ⟨h1, h2, h3, -⟩ := @h s s.forest.inner hs rfl
  exact ⟨h1 ▸ ha, h2, h3⟩

lemma pure {a : α} (ha : A a) : Passes keep q (pure a) A q := fun _ hs => ⟨ha, hs, rfl⟩

lemma bind {f : α → Parser β} (h : Passes keep q p A q')
    (hf : ∀ a, A a → Passes keep q' (f a) B q'') :
    Passes keep q (p >>= f) B q'' := by
  intro s hs
  obtain ⟨h1, h2, h3⟩ := h hs
  obtain ⟨g1, g2, g3⟩ := hf _ h1 h2
  rw [answer_bind, after_bind]
  exact ⟨g1, g2, g3.trans h3⟩

/-! ### Nodes -/

lemma node (k : Kind) (h : Passes keep q p A q') : Passes keep q (node k p) A q' := by
  intro s hs
  obtain ⟨h1, h2, h3⟩ := h (hs.setForest s.forest.start s.record.start)
  rw [answer_node, after_node]
  exact ⟨h1, h2.setForest _ _, h3⟩

lemma nodeAround {p : Parser Unit} (k : Kind) (h : Passes keep q p (fun _ => True) q') :
    Passes keep q (nodeAround k p) (fun _ => True) q' := by
  intro s hs
  obtain ⟨-, h2, h3⟩ := h (hs.setForest s.forest.precede s.record.precede)
  rw [after_nodeAround]
  exact ⟨trivial, h2.setForest _ _, h3⟩

/-! ### Looking and taking -/

lemma peekKind {f : Kind → Parser β} (hq : Faces mode k q) (h : Passes keep q (f k) B q') :
    Passes keep q (peekKind mode >>= f) B q' := by
  intro s hs
  rw [answer_bind, after_bind, hs.good.answer_peekKind, hs.good.after_peekKind, hq.kind hs]
  exact h (hq.look hs)

lemma isAt {f : Bool → Parser β} {kind : Kind} (hq : Faces mode k q)
    (h : Passes keep q (f (decide (k = kind))) B q') :
    Passes keep q (isAt mode kind >>= f) B q' := by
  intro s hs
  rw [answer_bind, after_bind, hs.good.answer_isAt, hs.good.after_isAt, hq.kind hs]
  exact h (hq.look hs)

lemma isAtAny {f : Bool → Parser β} {kinds : KindSet} (hq : Faces mode k q)
    (h : Passes keep q (f (kinds.contains k)) B q') :
    Passes keep q (isAtAny mode kinds >>= f) B q' := by
  intro s hs
  rw [answer_bind, after_bind, hs.good.answer_isAtAny, hs.good.after_isAtAny, hq.kind hs]
  exact h (hq.look hs)

lemma advance (h : Offers mode k w q q') (hk : k ≠ .eof) :
    Passes keep q (advance mode) (fun _ => True) q' :=
  of_course (Course.advance h hk) trivial

lemma eat (h : Offers mode k w q q') (hk : k ≠ .eof) : Passes keep q (eat mode k) (· = true) q' :=
  of_course (Course.eat h hk) rfl

lemma eat_other {kind : Kind} (hq : Faces mode k q) (hne : k ≠ kind) (hk : kind ≠ .eof) :
    Passes keep q (Parser.eat mode kind) (· = false) q :=
  of_course (Course.eat_other hq hne hk) rfl

lemma expect (h : Offers mode k w q q') (hk : k ≠ .eof) (m : String) :
    Passes keep q (expect mode k m) (fun _ => True) q' :=
  of_course (Course.expect h hk m) trivial

/-- A report that one does not want to keep. -/
lemma error (hq : Faces mode k q) {m : String}
    (hm : ∀ range, keep { problem := .grammar .unexpectedToken, message := m, range } = false) :
    Passes keep q (error mode m) (fun _ => True) q := by
  intro s hs
  have hlook := hq.look hs
  have hfilter : ∀ range, ((s.look mode).report range .unexpectedToken m).diagnostics.filter keep =
      s.diagnostics.filter keep := by
    intro range
    unfold ParserState.report
    split
    · rfl
    · simp [hm, ParserState.look]
  rw [Parser.error, hs.good.after_errorOf]
  refine ⟨trivial, ?_, ?_⟩
  · split
    · exact hlook
    · have hfollows := Follows.report hlook.good (s.rangeAt mode) .unexpectedToken m
      exact ⟨hfollows.good, hfollows.quiet hlook.quiet, by rw [scanner_report]; exact hlook.here⟩
  · split
    · rfl
    · exact hfilter _

/-! ### Repetition -/

section
variable {step : σ → Parser (ForInStep σ)} {A : σ → Prop} {x y : σ}

lemma loop_done (h : Passes keep q (step x) (· = .done y) q') (hy : A y) :
    Passes keep q (loop step x) A q' := by
  intro s hs
  obtain ⟨h1, h2⟩ := h hs
  have hrun := run_loop_done h1
  unfold Parser.answer Parser.after
  rw [hrun]
  exact ⟨hy, h2⟩

lemma loop_yield {I : σ → ParserState → Prop} {f : σ → Parser β}
    (hr : ∀ x ⦃s : ParserState⦄, s.Good → ((step x).after s).Good) (hI : Advances I step)
    (hx : ∀ ⦃s⦄, s.At q → I x s) (h : Passes keep q (step x) (· = .yield y) q')
    (hrest : Passes keep q' (loop step y >>= f) B q'') :
    Passes keep q (loop step x >>= f) B q'' := by
  intro s hs
  obtain ⟨h1, h2, h3⟩ := h hs
  obtain ⟨g1, g2, g3⟩ := hrest h2
  have hrun : (loop step x >>= f).run s = (loop step y >>= f).run ((step x).after s) := by
    rw [StateT.run_bind, StateT.run_bind, run_loop_yield hr hI hs.good (hx hs) h1]
  unfold Parser.answer Parser.after at *
  rw [hrun]
  exact ⟨g1, g2, g3.trans h3⟩

end

end Passes

end Parser

end DialogueScript
