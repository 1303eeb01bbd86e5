import DialogueScript.Proofs.Grammar.State
import DialogueScript.Proofs.Scanner.Locality
import DialogueScript.Proofs.Tree.Forest

/-!
What a rule of the grammar can do to the state at all: look at tokens, take them, report errors at
tokens it has looked at, ask whether to stop, and do all this inside nodes that it opens and closes.
Whatever holds of every rule is proved once by induction over these steps.
-/

namespace DialogueScript

/-- The states that a rule can lead to. The second state of `report` is the one in which the token
was looked at that the error is reported at. -/
inductive Reads : ParserState → ParserState → Prop where
  | refl (s : ParserState) : Reads s s
  | look {s₀ s : ParserState} (mode : Mode) : Reads s₀ s → Reads s₀ (s.look mode)
  | take {s₀ s : ParserState} (mode : Mode) : Reads s₀ s → s.kindAt mode ≠ .eof →
      Reads s₀ (s.take mode)
  | report {s₀ s₁ s : ParserState} (mode : Mode) (e : GrammarError) (m : String) : Reads s₀ s₁ →
      Reads s₁ s → Reads s₀ (s.report (s₁.rangeAt mode) e m)
  | poll {s₀ s : ParserState} : Reads s₀ s → Reads s₀ (Parser.poll.after s)
  | node {s₀ s s' : ParserState} (k : Kind) : Reads s₀ s → Reads s.start s' →
      Reads s₀ (s'.complete k)
  | abandon {s₀ s s' : ParserState} : Reads s₀ s → Reads s.start s' → Reads s₀ s'.abandon
  | around {s₀ s s' : ParserState} (k : Kind) : Reads s₀ s → Reads s.precede s' →
      Reads s₀ (s'.complete k)

lemma Reads.trans {s₀ s s' : ParserState} (h : Reads s₀ s) (h' : Reads s s') : Reads s₀ s' := by
  induction h' with
  | refl => exact h
  | look mode _ ih => exact .look mode (ih h)
  | take mode _ hk ih => exact .take mode (ih h) hk
  | report mode e m _ h₁ ih _ => exact .report mode e m (ih h) h₁
  | poll _ ih => exact .poll (ih h)
  | node k _ h₁ ih _ => exact .node k (ih h) h₁
  | abandon _ h₁ ih _ => exact .abandon (ih h) h₁
  | around k _ h₁ ih _ => exact .around k (ih h) h₁

/-! ### Asking whether to stop -/

/-- The state after a poll that decides to stop. -/
def ParserState.stop (s : ParserState) : ParserState :=
  { s with
    polls := s.polls + 1
    cancelled := true
    diagnostics := s.diagnostics ++ [{ problem := .grammar .cancelled
                                       message := (Problem.grammar .cancelled).message
                                       range := .empty s.scanner.offset }] }

lemma poll_cases (s : ParserState) :
    (Parser.poll.answer s = s.cancelled ∧ Parser.poll.after s = s) ∨
    (s.cancelled = false ∧ Parser.poll.answer s = true ∧ Parser.poll.after s = s.stop) ∨
    (s.cancelled = false ∧ Parser.poll.answer s = false ∧
      Parser.poll.after s = { s with polls := s.polls + 1 }) := by
  unfold Parser.answer Parser.after
  rcases Option.eq_none_or_eq_some s.cancelAt with hc | ⟨n, hc⟩
  · have hrun : Parser.poll.run s = (s.cancelled, s) := by
      unfold Parser.poll
      simp [hc]
      rfl
    rw [hrun]
    exact .inl ⟨rfl, rfl⟩
  · by_cases h1 : s.cancelled = true
    · have hrun : Parser.poll.run s = (true, s) := by
        unfold Parser.poll
        simp [hc, h1]
        rfl
      rw [hrun]
      exact .inl ⟨h1.symm, rfl⟩
    · have hf : s.cancelled = false := by simpa using h1
      by_cases h2 : n ≤ s.polls + 1
      · have hrun : Parser.poll.run s = (true, s.stop) := by
          unfold Parser.poll
          simp [hc, h1, h2, ParserState.stop]
          rfl
        rw [hrun]
        exact .inr (.inl ⟨hf, rfl, rfl⟩)
      · have hrun : Parser.poll.run s = (false, { s with polls := s.polls + 1 }) := by
          unfold Parser.poll
          simp [hc, h1, h2]
          rfl
        rw [hrun]
        exact .inr (.inr ⟨hf, rfl, rfl⟩)

@[simp] lemma scanner_poll (s : ParserState) : (Parser.poll.after s).scanner = s.scanner := by
  rcases poll_cases s with ⟨-, h⟩ | ⟨-, -, h⟩ | ⟨-, -, h⟩ <;> rw [h]; rfl

lemma forest_poll (s : ParserState) : (Parser.poll.after s).forest = s.forest := by
  rcases poll_cases s with ⟨-, h⟩ | ⟨-, -, h⟩ | ⟨-, -, h⟩ <;> rw [h]; rfl

/-! ### What every rule keeps -/

namespace ParserState

section
variable {s : ParserState} (h : s.Good) (mode : Mode)
include h

lemma Good.rest_take :
    s.scanner.rest = (s.scanner.ahead mode).token.fullText ++ (s.take mode).scanner.rest := by
  have := (h.scanner.takes mode).rest_eq
  rwa [Scanner.settle_rest] at this

/-- A token goes from the text into the trees. -/
lemma Good.text_take : (s.take mode).forest.text ++ (s.take mode).scanner.rest =
    s.forest.text ++ s.scanner.rest := by
  have : (s.take mode).forest.text = s.forest.text ++ (s.scanner.ahead mode).token.fullText := by
    simp [ParserState.take]
  rw [this, List.append_assoc, ← h.rest_take]

end

/-- Nothing was taken, and the next token at the start of a statement is still the same. -/
structure Idle (s₀ s : ParserState) : Prop where
  rest : s.scanner.rest = s₀.scanner.rest
  stack : s.scanner.stack = s₀.scanner.stack
  ahead : ∀ mode : Mode, mode.isIndentSensitive = true →
    s.scanner.ahead mode = s₀.scanner.ahead mode

namespace Idle

lemma refl (s : ParserState) : Idle s s := ⟨rfl, rfl, fun _ _ => rfl⟩

lemma trans {s₀ s s' : ParserState} (h : Idle s₀ s) (h' : Idle s s') : Idle s₀ s' :=
  ⟨h'.rest.trans h.rest, h'.stack.trans h.stack,
    fun mode hm => (h'.ahead mode hm).trans (h.ahead mode hm)⟩

lemma budget {s₀ s : ParserState} (h : Idle s₀ s) : s.scanner.budget = s₀.scanner.budget := by
  rw [Scanner.budget, h.rest, h.stack, Scanner.budget]

lemma look (s : ParserState) (mode : Mode) : Idle s (s.look mode) := by
  refine ⟨Scanner.settle_rest _ _, Scanner.settle_stack _ _, fun other ho => ?_⟩
  -- modes that are sensitive to indentation settle in the same way
  have hsettle : ∀ u : Scanner, mode.isIndentSensitive = true → u.settle mode = u.settle other := by
    intro u hm
    rw [Scanner.settle_of_sensitive u hm, Scanner.settle_of_sensitive u ho]
  have hout := Scanner.settle_setOutput (s.scanner.settle mode) (some (s.scanner.ahead mode))
    (s.scanner.settle mode).diagnostics other
  cases hm : mode.isIndentSensitive
  · rw [Scanner.settle_of_insensitive _ hm] at hout
    have heq : (s.look mode).scanner =
        { s.scanner with peeked := some (s.scanner.ahead mode) } := by
      simp only [ParserState.look, Scanner.looking, Scanner.settle_of_insensitive _ hm]
    rw [Scanner.ahead, heq, hout]
    rfl
  · rw [hsettle _ hm, Scanner.settle_settle] at hout
    have heq : (s.look mode).scanner =
        { s.scanner.settle other with peeked := some (s.scanner.ahead mode) } := by
      simp only [ParserState.look, Scanner.looking, hsettle _ hm]
    rw [Scanner.ahead, heq, hout]
    rfl

end Idle

/-- What holds between the states before and after a rule. -/
structure Follows (s₀ s : ParserState) : Prop where
  good : s.Good
  outer : s.forest.outer = s₀.forest.outer
  text : s.forest.text ++ s.scanner.rest = s₀.forest.text ++ s₀.scanner.rest
  offset : s.scanner.offset + Text.size s.scanner.rest =
    s₀.scanner.offset + Text.size s₀.scanner.rest
  suffix : s.scanner.rest <:+ s₀.scanner.rest
  config : s.scanner.config = s₀.scanner.config
  checkpoints : s.checkpoints = s₀.checkpoints
  cancelAt : s.cancelAt = s₀.cancelAt
  cancelled : s₀.cancelled = true → s.cancelled = true
  uncancelled : s₀.cancelAt = none → s.cancelled = s₀.cancelled
  diagnostics : s₀.diagnostics <+: s.diagnostics
  unseen : s.scanner.unseen ≤ s₀.scanner.unseen
  budget : s.scanner.budget < s₀.scanner.budget ∨ Idle s₀ s

namespace Follows

variable {s₀ s s' : ParserState}

lemma refl (h : s.Good) : Follows s s where
  good := h
  outer := rfl
  text := rfl
  offset := rfl
  suffix := List.suffix_refl _
  config := rfl
  checkpoints := rfl
  cancelAt := rfl
  cancelled := id
  uncancelled _ := rfl
  diagnostics := List.prefix_refl _
  unseen := le_rfl
  budget := .inr (.refl s)

lemma trans (h : Follows s₀ s) (h' : Follows s s') : Follows s₀ s' where
  good := h'.good
  outer := h'.outer.trans h.outer
  text := h'.text.trans h.text
  offset := h'.offset.trans h.offset
  suffix := h'.suffix.trans h.suffix
  config := h'.config.trans h.config
  checkpoints := h'.checkpoints.trans h.checkpoints
  cancelAt := h'.cancelAt.trans h.cancelAt
  cancelled := h'.cancelled ∘ h.cancelled
  uncancelled hc := (h'.uncancelled (h.cancelAt.trans hc)).trans (h.uncancelled hc)
  diagnostics := h.diagnostics.trans h'.diagnostics
  unseen := h'.unseen.trans h.unseen
  budget := by
    rcases h.budget with h1 | h1 <;> rcases h'.budget with h2 | h2
    · exact .inl (h2.trans h1)
    · exact .inl (h2.budget ▸ h1)
    · exact .inl (h1.budget ▸ h2)
    · exact .inr (h1.trans h2)

lemma look (h : s.Good) (mode : Mode) : Follows s (s.look mode) where
  good := h.look mode
  outer := rfl
  text := by simp [ParserState.look, Scanner.looking]
  offset := by simp [ParserState.look, Scanner.looking]
  suffix := by simp [ParserState.look, Scanner.looking]
  config := Scanner.settle_config _ _
  checkpoints := rfl
  cancelAt := rfl
  cancelled := id
  uncancelled _ := rfl
  diagnostics := List.prefix_refl _
  unseen := Scanner.unseen_looking_mono _ _
  budget := .inr (.look s mode)

lemma take (h : s.Good) {mode : Mode} (hk : s.kindAt mode ≠ .eof) : Follows s (s.take mode) := by
  have ht := h.scanner.takes mode
  have hrest := h.rest_take mode
  have hoff : (s.take mode).scanner.offset =
      s.scanner.offset + (s.scanner.ahead mode).token.size := by
    have := ht.offset_eq
    rwa [Scanner.settle_offset] at this
  exact
    { good := h.take mode
      outer := rfl
      text := h.text_take mode
      offset := by
        rw [hoff, hrest, Text.size_append, Token.size, Nat.add_assoc]
      suffix := ⟨_, hrest.symm⟩
      config := ht.config_eq.trans (Scanner.settle_config _ _)
      checkpoints := rfl
      cancelAt := rfl
      cancelled := id
      uncancelled _ := rfl
      diagnostics := List.prefix_append _ _
      unseen := h.scanner.unseen_after_mono mode
      budget := by
        have := ht.budget_lt (h.scanner.settle mode) hk
        simp only [Scanner.budget, Scanner.settle_rest, Scanner.settle_stack] at this
        exact .inl this }

lemma budget_le (h : Follows s₀ s) : s.scanner.budget ≤ s₀.scanner.budget := by
  rcases h.budget with h | h
  · exact h.le
  · exact h.budget.le

lemma offset_le (h : Follows s₀ s) : s₀.scanner.offset ≤ s.scanner.offset := by
  obtain ⟨x, hx⟩ := h.suffix
  have hoff := h.offset
  rw [← hx, Text.size_append] at hoff
  omega

/-- A step that touches neither the scanner nor the trees. -/
lemma outside (h : s.Good) (hscanner : s'.scanner = s.scanner) (hforest : s'.forest = s.forest)
    (hpoints : s'.checkpoints = s.checkpoints) (hat : s'.cancelAt = s.cancelAt)
    (hc : s.cancelled = true → s'.cancelled = true)
    (hu : s.cancelAt = none → s'.cancelled = s.cancelled)
    (hd : s.diagnostics <+: s'.diagnostics) : Follows s s' where
  good := ⟨hscanner ▸ h.scanner, hscanner ▸ h.silent⟩
  outer := by rw [hforest]
  text := by rw [hforest, hscanner]
  offset := by rw [hscanner]
  suffix := hscanner ▸ List.suffix_refl _
  config := by rw [hscanner]
  checkpoints := hpoints
  cancelAt := hat
  cancelled := hc
  uncancelled := hu
  diagnostics := hd
  unseen := by rw [hscanner]
  budget := .inr ⟨by rw [hscanner], by rw [hscanner], fun _ _ => by rw [hscanner]⟩

lemma report (h : s.Good) (range : Range) (e : GrammarError) (m : String) :
    Follows s (s.report range e m) := by
  unfold ParserState.report
  split
  · exact refl h
  · exact outside h rfl rfl rfl rfl id (fun _ => rfl) (List.prefix_append _ _)

lemma poll (h : s.Good) : Follows s (Parser.poll.after s) := by
  have hquiet : s.cancelAt = none → Parser.poll.after s = s := by
    intro hc
    unfold Parser.after Parser.poll
    simp [hc]
    rfl
  rcases poll_cases s with ⟨-, h1⟩ | ⟨-, -, h1⟩ | ⟨-, -, h1⟩
  · rw [h1]
    exact refl h
  · have hstop : s.cancelAt = none → s.stop.cancelled = s.cancelled := fun hc => by
      rw [← h1, hquiet hc]
    rw [h1]
    exact outside h rfl rfl rfl rfl (fun _ => rfl) hstop (List.prefix_append _ _)
  · rw [h1]
    exact outside h rfl rfl rfl rfl id (fun _ => rfl) (List.prefix_refl _)

/-- Opening nodes, reading, and closing the nodes again. -/
lemma within {f g : Forest} {r r' : Record} (hf : f.text = s.forest.text)
    (hg : g.text = s'.forest.text) (ho : g.outer = s.forest.outer)
    (h : Follows { s with forest := f, record := r } s') :
    Follows s { s' with forest := g, record := r' } where
  good := ⟨h.good.scanner, h.good.silent⟩
  outer := ho
  text := (congrArg (· ++ s'.scanner.rest) hg).trans
    (h.text.trans (congrArg (· ++ s.scanner.rest) hf))
  offset := h.offset
  suffix := h.suffix
  config := h.config
  checkpoints := h.checkpoints
  cancelAt := h.cancelAt
  cancelled := h.cancelled
  uncancelled := h.uncancelled
  diagnostics := h.diagnostics
  unseen := h.unseen
  budget := h.budget.imp_right fun h => ⟨h.rest, h.stack, h.ahead⟩

lemma node (h : Follows s.start s') (k : Kind) : Follows s (s'.complete k) := by
  refine within (Forest.text_start _) (Forest.text_complete _ _) ?_ h
  have : s'.forest.outer = s.forest.inner :: s.forest.outer := h.outer
  simp [Forest.complete, this]

lemma abandon (h : Follows s.start s') : Follows s s'.abandon := by
  refine within (Forest.text_start _) (Forest.text_abandon _) ?_ h
  have : s'.forest.outer = s.forest.inner :: s.forest.outer := h.outer
  simp [Forest.abandon, this]

lemma around (h : Follows s.precede s') (k : Kind) : Follows s (s'.complete k) := by
  refine within (Forest.text_precede _) (Forest.text_complete _ _) ?_ h
  obtain ⟨level, hlevel⟩ : ∃ level, s'.forest.outer = level :: s.forest.outer := by
    have : s'.forest.outer = s.forest.precede.outer := h.outer
    rw [this]
    unfold Forest.precede Forest.start
    split <;> exact ⟨_, rfl⟩
  simp [Forest.complete, hlevel]

end Follows

end ParserState

/-- **Every rule** keeps the scanner in order, loses no text, leaves the open nodes as they were,
adds to the diagnostics, and makes the budget smaller if it takes anything. -/
theorem Reads.follows {s₀ s : ParserState} (h : Reads s₀ s) (hg : s₀.Good) :
    ParserState.Follows s₀ s := by
  induction h with
  | refl => exact .refl hg
  | look mode _ ih => exact (ih hg).trans (.look (ih hg).good mode)
  | take mode _ hk ih => exact (ih hg).trans (.take (ih hg).good hk)
  | report mode e m _ _ ih ih' =>
    have h₁ := ih hg
    have h₂ := ih' h₁.good
    exact (h₁.trans h₂).trans (.report h₂.good _ e m)
  | poll _ ih => exact (ih hg).trans (.poll (ih hg).good)
  | node k _ _ ih ih' =>
    exact (ih hg).trans (.node (ih' ⟨(ih hg).good.scanner, (ih hg).good.silent⟩) k)
  | abandon _ _ ih ih' =>
    exact (ih hg).trans (.abandon (ih' ⟨(ih hg).good.scanner, (ih hg).good.silent⟩))
  | around k _ _ ih ih' =>
    exact (ih hg).trans (.around (ih' ⟨(ih hg).good.scanner, (ih hg).good.silent⟩) k)

/-- What holds of the scanner and of all tokens so far is kept by every rule if looking ahead keeps
it and taking a token does. -/
theorem Reads.keeps {I : Scanner → List Token → Prop} {s₀ s : ParserState} (h : Reads s₀ s)
    (hg : s₀.Good) (h₀ : I s₀.scanner s₀.forest.tokens)
    (hlook : ∀ ⦃u ts⦄ mode, u.Good → I u ts → I (u.looking mode) ts)
    (htake : ∀ ⦃u ts⦄ mode, u.Good → I u ts →
      I { u.after mode with diagnostics := [] } (ts ++ [(u.ahead mode).token])) :
    I s.scanner s.forest.tokens := by
  induction h with
  | refl => exact h₀
  | look mode hr ih => exact hlook mode (hr.follows hg).good.scanner (ih hg h₀)
  | take mode hr _ ih =>
    have := htake mode (hr.follows hg).good.scanner (ih hg h₀)
    rwa [ParserState.take, Forest.tokens_add, Tree.tokens_leaf]
  | report mode e m hr _ ih ih' =>
    rw [ParserState.scanner_report, ParserState.forest_report]
    exact ih' (hr.follows hg).good (ih hg h₀)
  | @poll s₀ s _ ih =>
    rcases poll_cases s with ⟨-, h1⟩ | ⟨-, -, h1⟩ | ⟨-, -, h1⟩ <;> rw [h1] <;> exact ih hg h₀
  | node k hr _ ih ih' =>
    have hgood := (hr.follows hg).good
    rw [ParserState.complete, Forest.tokens_complete]
    exact ih' ⟨hgood.scanner, hgood.silent⟩
      (by rw [ParserState.start, Forest.tokens_start]; exact ih hg h₀)
  | abandon hr _ ih ih' =>
    have hgood := (hr.follows hg).good
    rw [ParserState.abandon, Forest.tokens_abandon]
    exact ih' ⟨hgood.scanner, hgood.silent⟩
      (by rw [ParserState.start, Forest.tokens_start]; exact ih hg h₀)
  | around k hr _ ih ih' =>
    have hgood := (hr.follows hg).good
    rw [ParserState.complete, Forest.tokens_complete]
    exact ih' ⟨hgood.scanner, hgood.silent⟩
      (by rw [ParserState.precede, Forest.tokens_precede]; exact ih hg h₀)

end DialogueScript
