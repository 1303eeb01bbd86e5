import DialogueScript.Proofs.Grammar.Items

/-!
Reading that may be stopped, next to the same reading left alone. Up to the poll that stops it, the
two go through the same states. From then on the stopped one asks nothing more and reports nothing
but what the scanner finds in the tokens it still takes, while the other one can only report more.
-/

set_option synthInstance.maxSize 4096

namespace DialogueScript

namespace ParserState

/-- The same state, where nothing can stop reading. -/
def calm (s : ParserState) : ParserState := { s with cancelAt := none, polls := 0 }

lemma calm_report (s : ParserState) (range : Range) (e : GrammarError) (m : String) :
    s.calm.report range e m = (s.report range e m).calm := by
  have hc : s.calm.cancelled = s.cancelled := rfl
  rw [report, report, hc]
  split <;> rfl

/-- No cancelling is reported. -/
def Spared (ds : List Diagnostic) : Prop := ∀ d ∈ ds, d.problem ≠ .grammar .cancelled

/-- Nothing is reported but what the scanner finds. -/
def Lexical (ds : List Diagnostic) : Prop := ∀ d ∈ ds, d.problem.isLexical = true

lemma Lexical.spared {ds : List Diagnostic} (h : Lexical ds) : Spared ds := by
  intro d hd hp
  have := h d hd
  simp [hp, Problem.isLexical] at this

lemma lexical_errorsOf (l : Lexed) (position : Nat) : Lexical (errorsOf l position) := by
  intro d hd
  unfold errorsOf at hd
  split at hd
  · simp at hd
  · obtain rfl := List.mem_singleton.1 hd
    rfl

/-- What holds between the states before and after a rule, as far as it concerns cancelling. -/
structure Onward (s s' : ParserState) : Prop where
  good : s'.Good
  diagnostics : s.diagnostics <+: s'.diagnostics
  cancelAt : s'.cancelAt = s.cancelAt
  polls : s.polls ≤ s'.polls
  stopped : s.cancelled = true → s'.cancelled = true ∧ s'.polls = s.polls ∧
    ∃ more, s'.diagnostics = s.diagnostics ++ more ∧ Lexical more

/-- Reading goes on, and it has not been asked often enough to stop. -/
structure Running (s : ParserState) : Prop where
  good : s.Good
  running : s.cancelled = false
  polls : ∀ n, s.cancelAt = some n → s.polls < max n 1
  spared : Spared s.diagnostics

/-- Reading was stopped in the state `s`; left alone, it would have come to the state `a`. -/
structure Stopped (a s : ParserState) : Prop where
  good : a.Good
  good' : s.Good
  cancelled : s.cancelled = true
  polls : ∃ n, s.cancelAt = some n ∧ s.polls = max n 1
  found : ∃ before stop after, s.diagnostics = before ++ stop :: after ∧ before <+: a.diagnostics ∧
    Spared before ∧ stop.problem = .grammar .cancelled ∧ Lexical after

namespace Onward

variable {s s' s'' : ParserState}

lemma trans (h : Onward s s') (h' : Onward s' s'') : Onward s s'' where
  good := h'.good
  diagnostics := h.diagnostics.trans h'.diagnostics
  cancelAt := h'.cancelAt.trans h.cancelAt
  polls := h.polls.trans h'.polls
  stopped hc := by
    obtain ⟨h1, h2, more, h4, h5⟩ := h.stopped hc
    obtain ⟨g1, g2, more', g4, g5⟩ := h'.stopped h1
    refine ⟨g1, g2.trans h2, more ++ more', by rw [g4, h4, List.append_assoc], ?_⟩
    intro d hd
    rcases List.mem_append.1 hd with hd | hd
    · exact h5 d hd
    · exact g5 d hd

/-- A step that reports nothing and asks nothing. -/
lemma silent (hg : s'.Good) (hd : s'.diagnostics = s.diagnostics) (hp : s'.polls = s.polls)
    (hc : s'.cancelled = s.cancelled) (ha : s'.cancelAt = s.cancelAt) : Onward s s' where
  good := hg
  diagnostics := hd ▸ List.prefix_refl _
  cancelAt := ha
  polls := hp.ge
  stopped h := ⟨hc.trans h, hp, [], by simp [hd], by simp [Lexical]⟩

lemma look (h : s.Good) (mode : Mode) : Onward s (s.look mode) :=
  silent (h.look mode) rfl rfl rfl rfl

lemma take (h : s.Good) (mode : Mode) : Onward s (s.take mode) where
  good := h.take mode
  diagnostics := List.prefix_append _ _
  cancelAt := rfl
  polls := le_rfl
  stopped hc := ⟨hc, rfl, _, h.diagnostics_take mode, lexical_errorsOf _ _⟩

lemma report (h : s.Good) (range : Range) (e : GrammarError) (m : String) :
    Onward s (s.report range e m) := by
  unfold ParserState.report
  split
  · exact silent h rfl rfl rfl rfl
  · next hc =>
      exact ⟨⟨h.scanner, h.silent⟩, List.prefix_append _ _, rfl, le_rfl, fun h => absurd h hc⟩

lemma poll (h : s.Good) : Onward s (Parser.poll.after s) := by
  rcases poll_cases s with ⟨-, h1⟩ | ⟨hc, -, h1⟩ | ⟨hc, -, h1⟩ <;> rw [h1]
  · exact silent h rfl rfl rfl rfl
  · exact ⟨⟨h.scanner, h.silent⟩, List.prefix_append _ _, rfl, Nat.le_succ _,
      fun h => by simp [hc] at h⟩
  · exact ⟨⟨h.scanner, h.silent⟩, List.prefix_refl _, rfl, Nat.le_succ _,
      fun h => by simp [hc] at h⟩

/-- The trees play no part. -/
lemma setForest {f g : Forest} {r r' : Record} (h : Onward { s with forest := f, record := r } s') :
    Onward s { s' with forest := g, record := r' } :=
  ⟨⟨h.good.scanner, h.good.silent⟩, h.diagnostics, h.cancelAt, h.polls, h.stopped⟩

end Onward

namespace Running

variable {s : ParserState}

/-- A step that reports no cancelling and asks nothing. -/
lemma step (h : s.Running) {s' : ParserState} (hg : s'.Good) {more : List Diagnostic}
    (hd : s'.diagnostics = s.diagnostics ++ more) (hm : Spared more) (hp : s'.polls = s.polls)
    (hc : s'.cancelled = s.cancelled) (ha : s'.cancelAt = s.cancelAt) : s'.Running where
  good := hg
  running := hc.trans h.running
  polls n hn := by
    rw [hp]
    exact h.polls n (ha.symm.trans hn)
  spared d hmem := by
    rw [hd] at hmem
    rcases List.mem_append.1 hmem with hmem | hmem
    · exact h.spared d hmem
    · exact hm d hmem

lemma look (h : s.Running) (mode : Mode) : (s.look mode).Running :=
  h.step (h.good.look mode) (List.append_nil _).symm (by simp [Spared]) rfl rfl rfl

lemma take (h : s.Running) (mode : Mode) : (s.take mode).Running :=
  h.step (h.good.take mode) (h.good.diagnostics_take mode) (lexical_errorsOf _ _).spared rfl rfl rfl

lemma report (h : s.Running) (range : Range) {e : GrammarError} (he : e ≠ .cancelled) (m : String) :
    (s.report range e m).Running := by
  rw [ParserState.report, if_neg (by simp [h.running])]
  refine h.step ⟨h.good.scanner, h.good.silent⟩ rfl ?_ rfl rfl rfl
  intro d hd
  obtain rfl := List.mem_singleton.1 hd
  simpa using he

lemma setForest {f : Forest} {r : Record} (h : s.Running) :
    Running { s with forest := f, record := r } :=
  ⟨⟨h.good.scanner, h.good.silent⟩, h.running, h.polls, h.spared⟩

end Running

namespace Stopped

variable {a a' s s' : ParserState}

/-- What happens after reading was stopped does not change that it was. -/
lemma onward (h : Stopped a s) (ha : Onward a a') (hs : Onward s s') : Stopped a' s' := by
  obtain ⟨h1, h3, more, h4, h5⟩ := hs.stopped h.cancelled
  obtain ⟨n, h6, h7⟩ := h.polls
  obtain ⟨before, stop, after, h8, h9, h10, h11, h12⟩ := h.found
  refine ⟨ha.good, hs.good, h1, ⟨n, hs.cancelAt.trans h6, h3.trans h7⟩, before, stop,
    after ++ more, ?_, h9.trans ha.diagnostics, h10, h11, ?_⟩
  · rw [h4, h8, List.append_assoc, List.cons_append]
  · intro d hd
    rcases List.mem_append.1 hd with hd | hd
    · exact h12 d hd
    · exact h5 d hd

lemma setForest {f g : Forest} {r r' : Record} (h : Stopped a s) :
    Stopped { a with forest := f, record := r } { s with forest := g, record := r' } :=
  ⟨⟨h.good.scanner, h.good.silent⟩, ⟨h.good'.scanner, h.good'.silent⟩, h.cancelled,
    h.polls, h.found⟩

end Stopped

end ParserState

namespace Parser

open ParserState

variable {α β σ : Type}

/-- Two runs of a rule have gone through the same states so far. -/
structure Coincides (p : Parser α) (s : ParserState) : Prop where
  answer : p.answer s.calm = p.answer s
  after : p.after s.calm = (p.after s).calm
  running : (p.after s).Running

/-- A rule that can be stopped only by a poll, and that does what it would do otherwise up to that
poll. -/
class Stoppable (p : Parser α) : Prop where
  onward : ∀ ⦃s⦄, s.Good → Onward s (p.after s)
  stops : ∀ ⦃s⦄, s.Running → Coincides p s ∨ Stopped (p.after s.calm) (p.after s)

lemma good_calm {s : ParserState} (h : s.Good) : s.calm.Good := ⟨h.scanner, h.silent⟩

/-! ### Sequences -/

instance Stoppable.pure (a : α) : Stoppable (Pure.pure a : Parser α) where
  onward _ hg := .silent hg rfl rfl rfl rfl
  stops _ h := .inl ⟨rfl, rfl, h⟩

instance Stoppable.bind (p : Parser α) (f : α → Parser β) [hp : Stoppable p]
    [hf : ∀ a, Stoppable (f a)] : Stoppable (p >>= f) where
  onward s hg := by
    have h := hp.onward hg
    exact h.trans ((hf _).onward h.good)
  stops s h := by
    rcases hp.stops h with ⟨h1, h2, h3⟩ | hstop
    · rcases (hf (p.answer s)).stops h3 with ⟨h4, h5, h6⟩ | hstop
      · refine .inl ⟨?_, ?_, h6⟩
        · rw [answer_bind, answer_bind, h1, h2, h4]
        · rw [after_bind, after_bind, h1, h2, h5]
      · right
        rw [after_bind, after_bind, h1, h2]
        exact hstop
    · exact .inr (hstop.onward ((hf _).onward hstop.good) ((hf _).onward hstop.good'))

lemma Stoppable.seq {p : Parser α} {f : α → Parser β} (hp : Stoppable p)
    (hf : ∀ a, Stoppable (f a)) : Stoppable (p >>= f) :=
  inferInstance

instance Stoppable.ite {c : Prop} [Decidable c] (p q : Parser α) [hp : Stoppable p]
    [hq : Stoppable q] : Stoppable (if c then p else q) := by
  split
  · exact hp
  · exact hq

/-- Rules may look at the state, as long as that tells them nothing about cancelling. -/
lemma Stoppable.withState {f : ParserState → Parser α} (h : ∀ s, Stoppable (f s))
    (hf : ∀ s, f s.calm = f s) : Stoppable (get >>= f) where
  onward s hg := (h s).onward hg
  stops s hs := by
    have hanswer : (get >>= f).answer s.calm = (f s).answer s.calm := by
      rw [← hf s]
      rfl
    have hafter : (get >>= f).after s.calm = (f s).after s.calm := by
      rw [← hf s]
      rfl
    rcases (h s).stops hs with ⟨h1, h2, h3⟩ | hstop
    · exact .inl ⟨hanswer.trans h1, hafter.trans h2, h3⟩
    · right
      rw [hafter]
      exact hstop

/-! ### Tokens and errors -/

/-- A rule that only looks at the next token. -/
lemma Stoppable.of_look {p : Parser α} (mode : Mode)
    (hafter : ∀ ⦃s⦄, s.Good → p.after s = s.look mode)
    (hanswer : ∀ ⦃s⦄, s.Good → p.answer s.calm = p.answer s) : Stoppable p where
  onward s hg := by
    rw [hafter hg]
    exact .look hg mode
  stops s h := by
    refine .inl ⟨hanswer h.good, ?_, ?_⟩
    · rw [hafter h.good, hafter (good_calm h.good)]
      rfl
    · rw [hafter h.good]
      exact h.look mode

section
variable (mode : Mode)

instance : Stoppable (peekKind mode) :=
  .of_look mode (fun _ hg => hg.after_peekKind mode) fun _ hg => by
    rw [hg.answer_peekKind, (good_calm hg).answer_peekKind]
    rfl

instance : Stoppable (peekCommand mode) :=
  .of_look mode (fun _ hg => hg.after_peekCommand mode) fun _ hg => by
    rw [hg.answer_peekCommand, (good_calm hg).answer_peekCommand]
    rfl

instance : Stoppable (peekRange mode) :=
  .of_look mode (fun _ hg => hg.after_peekRange mode) fun _ hg => by
    rw [hg.answer_peekRange, (good_calm hg).answer_peekRange]
    rfl

instance (kind : Kind) : Stoppable (isAt mode kind) := by
  unfold isAt
  infer_instance

instance (kinds : KindSet) : Stoppable (isAtAny mode kinds) := by
  unfold isAtAny
  infer_instance

instance : Stoppable (isAtLineEnd mode) := by
  unfold isAtLineEnd
  infer_instance

instance : Stoppable (isInLine mode) := by
  unfold isInLine
  infer_instance

instance (kinds : KindSet) : Stoppable (isBefore mode kinds) := by
  unfold isBefore
  infer_instance

instance : Stoppable (bump mode) where
  onward s hg := by
    rw [hg.after_bump]
    exact .take hg mode
  stops s h := by
    refine .inl ⟨rfl, ?_, ?_⟩
    · rw [h.good.after_bump, (good_calm h.good).after_bump]
      rfl
    · rw [h.good.after_bump]
      exact h.take mode

instance : Stoppable (advance mode) := by
  unfold advance
  infer_instance

instance (kind : Kind) : Stoppable (eat mode kind) := by
  unfold eat
  infer_instance

end

instance : Stoppable offset where
  onward _ hg := .silent hg rfl rfl rfl rfl
  stops _ h := .inl ⟨rfl, rfl, h⟩

lemma Stoppable.errorAt (range : Range) {e : GrammarError} (he : e ≠ .cancelled) (m : String) :
    Stoppable (errorAt range e m) where
  onward s hg := by
    rw [after_errorAt]
    exact .report hg range e m
  stops s h := by
    refine .inl ⟨rfl, ?_, ?_⟩
    · rw [after_errorAt, after_errorAt, calm_report]
    · rw [after_errorAt]
      exact h.report range he m

lemma Stoppable.errorOf (mode : Mode) {e : GrammarError} (he : e ≠ .cancelled) (m : String) :
    Stoppable (errorOf mode e m) where
  onward s hg := by
    rw [hg.after_errorOf]
    split
    · exact .look hg mode
    · exact (Onward.look hg mode).trans (.report (hg.look mode) _ e m)
  stops s h := by
    have hkind : s.calm.kindAt mode = s.kindAt mode := rfl
    refine .inl ⟨rfl, ?_, ?_⟩
    · rw [h.good.after_errorOf, (good_calm h.good).after_errorOf, hkind]
      split
      · rfl
      · exact calm_report (s.look mode) _ e m
    · rw [h.good.after_errorOf]
      split
      · exact h.look mode
      · exact (h.look mode).report _ he m

instance (mode : Mode) (m : String) : Stoppable (error mode m) := .errorOf mode (by decide) m

instance (mode : Mode) (kind : Kind) (m : String) : Stoppable (expect mode kind m) := by
  unfold expect
  infer_instance

/-- **Only a poll stops reading**, at the first call that is to be answered so. -/
instance : Stoppable poll where
  onward _ hg := .poll hg
  stops s h := by
    have hcalm := Quiet.poll (s := s.calm) ⟨rfl, h.running⟩
    rcases hn : s.cancelAt with _ | n
    · have hquiet := Quiet.poll (s := s) ⟨hn, h.running⟩
      refine .inl ⟨hcalm.1.trans hquiet.1.symm, ?_, ?_⟩
      · rw [hcalm.2, hquiet.2]
      · rwa [hquiet.2]
    · have hlt := h.polls n hn
      by_cases hle : n ≤ s.polls + 1
      · right
        have hafter : poll.after s = s.stop := by
          unfold Parser.after poll
          simp [hn, h.running, hle, ParserState.stop]
          rfl
        rw [hafter, hcalm.2]
        refine ⟨good_calm h.good, ⟨h.good.scanner, h.good.silent⟩, rfl, ⟨n, hn, ?_⟩,
          s.diagnostics, _, [], rfl, List.prefix_refl _, h.spared, rfl, by simp [Lexical]⟩
        change s.polls + 1 = max n 1
        omega
      · left
        have hrun : poll.run s = (false, { s with polls := s.polls + 1 }) := by
          unfold poll
          simp [hn, h.running, hle]
          rfl
        have hanswer : poll.answer s = false := congrArg Prod.fst hrun
        have hafter : poll.after s = { s with polls := s.polls + 1 } := congrArg Prod.snd hrun
        refine ⟨hcalm.1.trans hanswer.symm, by rw [hcalm.2, hafter]; rfl, ?_⟩
        rw [hafter]
        refine ⟨⟨h.good.scanner, h.good.silent⟩, h.running, fun m hm => ?_, h.spared⟩
        obtain rfl : n = m := Option.some.inj (hn.symm.trans hm)
        change s.polls + 1 < max n 1
        omega

instance : Stoppable isCancelled where
  onward _ hg := .silent hg rfl rfl rfl rfl
  stops _ h := .inl ⟨rfl, rfl, h⟩

instance : Stoppable checkpoint where
  onward _ hg := .silent ⟨hg.scanner, hg.silent⟩ rfl rfl rfl rfl
  stops _ h := .inl ⟨rfl, rfl, ⟨⟨h.good.scanner, h.good.silent⟩, h.running, h.polls, h.spared⟩⟩

/-! ### Nodes -/

instance Stoppable.node (k : Kind) (p : Parser α) [hp : Stoppable p] :
    Stoppable (Parser.node k p) where
  onward s hg := (hp.onward (good_start hg)).setForest
  stops s h := by
    rcases hp.stops (s := s.start) h.setForest with ⟨h1, h2, h3⟩ | hstop
    · exact .inl ⟨h1, congrArg (·.complete k) h2, h3.setForest⟩
    · exact .inr hstop.setForest

instance Stoppable.nodeOf (p : Parser Kind) [hp : Stoppable p] : Stoppable (Parser.nodeOf p) where
  onward s hg := (hp.onward (good_start hg)).setForest
  stops s h := by
    rcases hp.stops (s := s.start) h.setForest with ⟨h1, h2, h3⟩ | hstop
    · refine .inl ⟨h1, ?_, h3.setForest⟩
      have h1 : p.answer s.calm.start = p.answer s.start := h1
      rw [after_nodeOf, after_nodeOf, h1]
      exact congrArg (·.complete (p.answer s.start)) h2
    · exact .inr hstop.setForest

instance Stoppable.nodeAround (k : Kind) (p : Parser Unit) [hp : Stoppable p] :
    Stoppable (Parser.nodeAround k p) where
  onward s hg := (hp.onward (good_precede hg)).setForest
  stops s h := by
    rcases hp.stops (s := s.precede) h.setForest with ⟨-, h2, h3⟩ | hstop
    · exact .inl ⟨rfl, congrArg (·.complete k) h2, h3.setForest⟩
    · exact .inr hstop.setForest

lemma Stoppable.nodeIf {k : Kind} {p : Parser Bool} (hp : Stoppable p) :
    Stoppable (Parser.nodeIf k p) where
  onward s hg := by
    have h := hp.onward (good_start hg)
    unfold Parser.after
    rw [run_nodeIf]
    split
    · exact h.setForest
    · exact h.setForest
  stops s h := by
    unfold Parser.after
    rcases hp.stops (s := s.start) h.setForest with ⟨h1, h2, h3⟩ | hstop
    · have h1 : p.answer s.calm.start = p.answer s.start := h1
      have h2 : p.after s.calm.start = (p.after s.start).calm := h2
      left
      refine ⟨?_, ?_, ?_⟩
      · unfold Parser.answer
        rw [run_nodeIf, run_nodeIf, h1]
      · unfold Parser.after
        rw [run_nodeIf, run_nodeIf, h1, h2]
        simp only
        split <;> rfl
      · unfold Parser.after
        rw [run_nodeIf]
        simp only
        split
        · exact h3.setForest
        · exact h3.setForest
    · right
      rw [run_nodeIf, run_nodeIf]
      simp only
      split <;> split <;> exact hstop.setForest

/-! ### Repetition -/

lemma Stoppable.loopUpTo {step : σ → Parser (ForInStep σ)} (h : ∀ a, Stoppable (step a)) (n : Nat)
    (a : σ) : Stoppable (loopUpTo step n a) := by
  induction n generalizing a with
  | zero => exact .pure a
  | succ n ih =>
    rw [Parser.loopUpTo]
    refine .seq (h a) fun next => ?_
    cases next
    · exact .pure _
    · exact ih _

instance Stoppable.loop (step : σ → Parser (ForInStep σ)) (a : σ) [h : ∀ a, Stoppable (step a)] :
    Stoppable (Parser.loop step a) :=
  .withState (fun s => .loopUpTo h (s.scanner.budget + 1) a) fun _ => rfl

/-- What a loop does behind its first step. -/
lemma Stoppable.onward_loop {step : σ → Parser (ForInStep σ)} (h : ∀ a, Stoppable (step a))
    {s : ParserState} (hg : s.Good) (a : σ) :
    Onward ((step a).after s) ((Parser.loop step a).after s) := by
  have hgood := ((h a).onward hg).good
  rw [Parser.after, Parser.after, run_loop]
  rcases hs : (step a).answer s with b | b
  · rw [run_loopUpTo_done hs]
    exact .silent hgood rfl rfl rfl rfl
  · rw [run_loopUpTo_yield hs]
    exact (Stoppable.loopUpTo h s.scanner.budget b).onward hgood

instance Stoppable.repeatWhile (condition : Parser Bool) (rule : Parser Unit)
    [Stoppable condition] [Stoppable rule] : Stoppable (Parser.repeatWhile condition rule) := by
  unfold Parser.repeatWhile whileStep
  infer_instance

end Parser

end DialogueScript
