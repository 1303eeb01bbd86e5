import DialogueScript.Proofs.Grammar.Flat

/-!
Moving forward. The token that closes a block has no text, so a rule can take one and stay where it
is. The grammar does so in two places: at the end of the block itself, and in a body where no block
is open any more. Everywhere else a token that is taken moves the position.
-/

set_option synthInstance.maxSize 512

namespace DialogueScript

namespace ParserState

/-! ### Positions -/

section
variable {s₀ s : ParserState}

lemma Follows.offset_lt (h : Follows s₀ s) (hlt : s.scanner.rest.length < s₀.scanner.rest.length) :
    s₀.scanner.offset < s.scanner.offset := by
  obtain ⟨x, hx⟩ := h.suffix
  have hoff := h.offset
  have hpos : x ≠ [] := by
    rintro rfl
    simp [← hx] at hlt
  have := Text.size_pos hpos
  rw [← hx, Text.size_append] at hoff
  omega

/-- The budget counts characters and open blocks, so where no block was closed, some text was
taken. -/
lemma Follows.offset_lt_of_budget (h : Follows s₀ s)
    (hdepth : s₀.scanner.stack.depth ≤ s.scanner.stack.depth)
    (hlt : s.scanner.budget < s₀.scanner.budget) : s₀.scanner.offset < s.scanner.offset := by
  refine h.offset_lt ?_
  rw [Scanner.budget, Scanner.budget] at hlt
  omega

lemma Good.offset_lt_take (h : s.Good) {mode : Mode} (h₁ : s.kindAt mode ≠ .eof)
    (h₂ : s.kindAt mode ≠ .dedent) : s.scanner.offset < (s.take mode).scanner.offset := by
  refine (Follows.take h h₁).offset_lt ?_
  have hrest := congrArg List.length (h.rest_take mode)
  rw [List.length_append] at hrest
  rcases (h.scanner.takes mode).progress (h.scanner.settle mode) with hne | ⟨hk, -⟩ | ⟨hk, -⟩
  · have := List.length_pos_iff.2 hne
    omega
  · exact absurd hk h₂
  · exact absurd hk h₁

/-- The position was moved, or nothing was taken at all. -/
def Moved (s₀ s : ParserState) : Prop := s₀.scanner.offset < s.scanner.offset ∨ Idle s₀ s

/-- What is done behind a part that took nothing decides whether the whole moves the position. -/
lemma Moved.trans {s' : ParserState} (h : Moved s₀ s) (hf : Follows s₀ s) (hf' : Follows s s')
    (h' : Idle s₀ s → Moved s s') : Moved s₀ s' := by
  rcases h with hlt | hidle
  · exact .inl (lt_of_lt_of_le hlt hf'.offset_le)
  · rcases h' hidle with hlt | hidle'
    · exact .inl (lt_of_le_of_lt hf.offset_le hlt)
    · exact .inr (hidle.trans hidle')

/-- Only the scanners matter. -/
lemma Moved.congr {s₀' s' : ParserState} (h : Moved s₀ s) (h₀ : s₀'.scanner = s₀.scanner)
    (h' : s'.scanner = s.scanner) : Moved s₀' s' := by
  unfold Moved at *
  rw [h₀, h']
  exact h.imp_right fun ⟨h₁, h₂, h₃⟩ =>
    ⟨by rw [h₀, h', h₁], by rw [h₀, h', h₂], by rw [h₀, h']; exact h₃⟩

end

end ParserState

open ParserState DialogueScript.Parser

/-- **Where no block is closed next**, a rule moves the position or takes nothing at all. -/
theorem Reads.moved {s₀ s : ParserState} (h : Reads s₀ s) (hg : s₀.Good)
    (hk : s₀.kindAt .statement ≠ .dedent) : Moved s₀ s := by
  have hkind : ∀ {s₀ s : ParserState}, s₀.kindAt .statement ≠ .dedent → Idle s₀ s →
      s.kindAt .statement ≠ .dedent := by
    intro s₀ s hk h
    rwa [kindAt, h.ahead .statement rfl]
  induction h with
  | refl s => exact .inr (.refl s)
  | look mode h ih =>
    have hf := h.follows hg
    exact (ih hg hk).trans hf (.look hf.good mode) fun _ => .inr (.look _ mode)
  | take mode h he ih =>
    have hf := h.follows hg
    refine (ih hg hk).trans hf (.take hf.good he) fun hidle => .inl (hf.good.offset_lt_take he ?_)
    exact Scanner.kind_ne_dedent hf.good.scanner.toSane rfl (hkind hk hidle) mode
  | report mode e m h h' ih ih' =>
    have hf := h.follows hg
    have hmoved := (ih hg hk).trans hf (h'.follows hf.good) fun hidle =>
      ih' hf.good (hkind hk hidle)
    exact hmoved.congr rfl (scanner_report _ _ _ _)
  | poll h ih =>
    exact (ih hg hk).congr rfl (scanner_poll _)
  | node k h h' ih ih' =>
    have hf := h.follows hg
    have hstart := good_start hf.good
    exact (ih hg hk).trans hf (.node (h'.follows hstart) k) fun hidle => by
      have hnext := hkind hk hidle
      exact (ih' hstart hnext).congr rfl rfl
  | abandon h h' ih ih' =>
    have hf := h.follows hg
    have hstart := good_start hf.good
    exact (ih hg hk).trans hf (.abandon (h'.follows hstart)) fun hidle => by
      have hnext := hkind hk hidle
      exact (ih' hstart hnext).congr rfl rfl
  | around k h h' ih ih' =>
    have hf := h.follows hg
    have hprecede := good_precede hf.good
    exact (ih hg hk).trans hf (.around (h'.follows hprecede) k) fun hidle => by
      have hnext := hkind hk hidle
      exact (ih' hprecede hnext).congr rfl rfl

namespace Scanner

/-- The next token in a mode is of one of some kinds. -/
def Sees (mode : Mode) (K : Kind → Prop) (s : Scanner) : Prop := K (s.ahead mode).token.kind

/-- The last line was taken with its end. -/
abbrev LineOver : Scanner → Prop := Sees .statement (· ≠ .newline)

end Scanner

namespace Parser

variable {α β σ : Type}

/-! ### Rules that compare no indentation -/

/-- Where no block is closed next, such rules close none. -/
lemma Skims.calm {s₀ s : ParserState} (h : Skims s₀ s) (hg : s₀.Good) (hcalm : s₀.scanner.Calm) :
    s.scanner.Calm ∧ s₀.scanner.stack.depth ≤ s.scanner.stack.depth := by
  refine h.keeps (I := fun u => u.Calm ∧ s₀.scanner.stack.depth ≤ u.stack.depth) hg
    ⟨hcalm, le_rfl⟩ ?_ ?_
  · rintro u mode - hm ⟨h₁, h₂⟩
    have heq : (u.look mode).scanner =
        { u.scanner with peeked := some (u.scanner.ahead mode) } := by
      simp only [ParserState.look, Scanner.looking, Scanner.settle_of_insensitive _ hm]
    rw [heq]
    exact ⟨h₁, h₂⟩
  · rintro u mode hu hm ⟨h₁, h₂⟩
    have hset : (u.scanner.settle mode).Calm := by rwa [Scanner.settle_of_insensitive _ hm]
    obtain ⟨h₃, h₄⟩ := hset.after hu.scanner.toSane
    exact ⟨h₃, h₂.trans h₄⟩

lemma Flat.calm (p : Parser α) [hp : Flat p] {s : ParserState} (hg : s.Good) (h : s.scanner.Calm) :
    (p.after s).scanner.Calm :=
  ((hp.skims hg).calm hg h).1

lemma Flat.good (p : Parser α) [hp : Flat p] {s : ParserState} (hg : s.Good) : (p.after s).Good :=
  (hp.skims hg).good hg

/-- Such a rule moves the position if it takes anything. -/
lemma Flat.offset_lt (p : Parser α) [hp : Flat p] {s : ParserState} (hg : s.Good)
    (h : s.scanner.Calm) (hlt : (p.after s).scanner.budget < s.scanner.budget) :
    s.scanner.offset < (p.after s).scanner.offset :=
  ((hp.skims hg).reads.follows hg).offset_lt_of_budget ((hp.skims hg).calm hg h).2 hlt

end Parser

/-! ### What the grammar does as a whole -/

/-- The states that the grammar leads to. A token that closes a block is the last one of a block, or
stands alone in an error. -/
inductive Forward : ParserState → ParserState → Prop where
  | refl (s : ParserState) : Forward s s
  | look {s₀ s : ParserState} (mode : Mode) : Forward s₀ s → Forward s₀ (s.look mode)
  | take {s₀ s : ParserState} (mode : Mode) : Forward s₀ s → s.kindAt mode ≠ .eof →
      s.kindAt mode ≠ .dedent → Forward s₀ (s.take mode)
  | report {s₀ s₁ s : ParserState} (mode : Mode) (e : GrammarError) (m : String) : m ∈ messages →
      Forward s₀ s₁ → Forward s₁ s → Forward s₀ (s.report (s₁.rangeAt mode) e m)
  | poll {s₀ s : ParserState} : Forward s₀ s → Forward s₀ (Parser.poll.after s)
  | node {s₀ s s' : ParserState} (k : Kind) : Forward s₀ s → Forward s.start s' →
      Forward s₀ (s'.complete k)
  | abandon {s₀ s s' : ParserState} : Forward s₀ s → Forward s.start s' → Forward s₀ s'.abandon
  | around {s₀ s s' : ParserState} (k : Kind) : Forward s₀ s → Forward s.precede s' →
      Forward s₀ (s'.complete k)
  | block {s₀ s s' : ParserState} : Forward s₀ s → Forward s.start s' →
      s'.kindAt .statement = .dedent →
      Forward s₀ ((s'.take .statement).complete .block)
  | stray {s₀ s s' : ParserState} : Forward s₀ s → Forward s.start s' →
      s'.kindAt .statement = .dedent →
      s'.forest.inner = [] → Forward s₀ ((s'.take .statement).complete .error)

namespace Forward

variable {s₀ s s' : ParserState}

lemma trans (h : Forward s₀ s) (h' : Forward s s') : Forward s₀ s' := by
  induction h' with
  | refl => exact h
  | look mode _ ih => exact .look mode (ih h)
  | take mode _ h₁ h₂ ih => exact .take mode (ih h) h₁ h₂
  | report mode e m hm _ h₁ ih _ => exact .report mode e m hm (ih h) h₁
  | poll _ ih => exact .poll (ih h)
  | node k _ h₁ ih _ => exact .node k (ih h) h₁
  | abandon _ h₁ ih _ => exact .abandon (ih h) h₁
  | around k _ h₁ ih _ => exact .around k (ih h) h₁
  | block _ h₁ hk ih _ => exact .block (ih h) h₁ hk
  | stray _ h₁ hk hn ih _ => exact .stray (ih h) h₁ hk hn

lemma reads (h : Forward s₀ s) : Reads s₀ s := by
  induction h with
  | refl => exact .refl _
  | look mode _ ih => exact .look mode ih
  | take mode _ hk _ ih => exact .take mode ih hk
  | report mode e m _ _ _ ih ih' => exact .report mode e m ih ih'
  | poll _ ih => exact .poll ih
  | node k _ _ ih ih' => exact .node k ih ih'
  | abandon _ _ ih ih' => exact .abandon ih ih'
  | around k _ _ ih ih' => exact .around k ih ih'
  | block _ _ hk ih ih' => exact .node _ ih (.take _ ih' (by simp [hk]))
  | stray _ _ hk _ ih ih' => exact .node _ ih (.take _ ih' (by simp [hk]))

lemma good (h : Forward s₀ s) (hg : s₀.Good) : s.Good := (h.reads.follows hg).good

end Forward

namespace Parser

lemma Skims.forward {s₀ s : ParserState} (h : Skims s₀ s) (hg : s₀.Good) (hcalm : s₀.scanner.Calm) :
    Forward s₀ s := by
  induction h with
  | refl => exact .refl _
  | look mode _ _ ih => exact .look mode (ih hg hcalm)
  | take mode h hm hk ih =>
    refine .take mode (ih hg hcalm) hk (Scanner.Calm.kind_ne (h.good hg).scanner.toSane ?_)
    rw [Scanner.settle_of_insensitive _ hm]
    exact (h.calm hg hcalm).1
  | report mode e m hm h _ ih ih' =>
    exact .report mode e m hm (ih hg hcalm) (ih' (h.good hg) (h.calm hg hcalm).1)
  | node k h _ ih ih' =>
    exact .node k (ih hg hcalm) (ih' (good_start (h.good hg)) (h.calm hg hcalm).1)
  | abandon h _ ih ih' =>
    exact .abandon (ih hg hcalm) (ih' (good_start (h.good hg)) (h.calm hg hcalm).1)
  | around k h _ ih ih' =>
    exact .around k (ih hg hcalm) (ih' (good_precede (h.good hg)) (h.calm hg hcalm).1)

/-! ### Before and after a rule -/

/-- Where `P` holds, a rule does what the grammar does, and `Q` holds of its answer and behind
it. -/
def Triple (P : Scanner → Prop) (p : Parser α) (Q : α → Scanner → Prop) : Prop :=
  ∀ ⦃s⦄, s.Good → P s.scanner → Forward s (p.after s) ∧ Q (p.answer s) (p.after s).scanner

/-- What a step of a loop leads to: to its next step under `I`, or out of the loop with `Q`. -/
def OrDone (I Q : σ → Scanner → Prop) : ForInStep σ → Scanner → Prop
  | .yield a => I a
  | .done a => Q a

namespace Triple

variable {P P' : Scanner → Prop} {Q Q' : α → Scanner → Prop} {R : β → Scanner → Prop}
  {p q : Parser α}

lemma weaken (h : Triple P p Q) (hP : ∀ s, P' s → P s) (hQ : ∀ a s, Q a s → Q' a s) :
    Triple P' p Q' :=
  fun _ hg hs => (h hg (hP _ hs)).imp_right (hQ _ _)

lemma pure {a : α} (h : ∀ s, P s → Q a s) : Triple P (Pure.pure a) Q :=
  fun s _ hs => ⟨.refl s, h _ hs⟩

lemma bind {f : α → Parser β} (hp : Triple P p Q) (hf : ∀ a, Triple (Q a) (f a) R) :
    Triple P (p >>= f) R := by
  intro s hg hs
  obtain ⟨h₁, h₂⟩ := hp hg hs
  obtain ⟨h₃, h₄⟩ := hf _ (h₁.good hg) h₂
  exact ⟨h₁.trans h₃, h₄⟩

lemma ite {c : Prop} [Decidable c] (hp : c → Triple P p Q) (hq : ¬ c → Triple P q Q) :
    Triple P (if c then p else q) Q := by
  split
  · exact hp ‹_›
  · exact hq ‹_›

lemma node (k : Kind) (hp : Triple P p Q) : Triple P (Parser.node k p) Q :=
  fun s hg hs => (hp (good_start hg) hs).imp_left (.node k (.refl s))

lemma nodeOf {p : Parser Kind} {Q : Kind → Scanner → Prop} (hp : Triple P p Q) :
    Triple P (Parser.nodeOf p) Q :=
  fun s hg hs => (hp (good_start hg) hs).imp_left (.node _ (.refl s))

lemma nodeIf {k : Kind} {p : Parser Bool} {Q : Bool → Scanner → Prop} (hp : Triple P p Q) :
    Triple P (Parser.nodeIf k p) Q := by
  intro s hg hs
  have h := hp (good_start hg) hs
  unfold Parser.after Parser.answer at h ⊢
  rw [run_nodeIf]
  dsimp only
  split
  · exact h.imp_left (.node k (.refl s))
  · exact h.imp_left (.abandon (.refl s))

/-- A loop under an invariant of its steps. -/
lemma loop {I Q : σ → Scanner → Prop} {step : σ → Parser (ForInStep σ)}
    (h : ∀ a, Triple (I a) (step a) (OrDone I Q))
    (hI : ∀ a s, I a s → Q a s) (a : σ) : Triple (I a) (loop step a) Q := by
  have hloop : ∀ n a, Triple (I a) (loopUpTo step n a) Q := by
    intro n
    induction n with
    | zero => exact fun a => .pure (hI a)
    | succ n ih =>
      intro a
      rw [loopUpTo]
      refine (h a).bind fun next => ?_
      cases next
      · exact .pure fun _ hs => hs
      · exact ih _
  exact fun s hg hs => hloop (s.scanner.budget + 1) a hg hs

/-- A rule that compares no indentation closes no block. -/
lemma flat (p : Parser α) [hp : Flat p] : Triple Scanner.Calm p fun _ => Scanner.Calm :=
  fun _ hg hs => ⟨(hp.skims hg).forward hg hs, Flat.calm p hg hs⟩

/-! ### First tokens of statements -/

section
variable {mode : Mode} {K : Kind → Prop}

/-- Where a token stands next that closes no block, none is to be closed. -/
lemma of_calm (h : Triple Scanner.Calm p Q) : Triple (Scanner.Sees mode (· ≠ .dedent)) p Q :=
  fun _ hg hs => h hg (Scanner.calm_of_kind_ne hg.scanner.toSane hs)

lemma at_kind {k : Kind} (h : Triple (Scanner.Sees mode (· ≠ .dedent)) p Q) (hk : k ≠ .dedent) :
    Triple (Scanner.Sees mode (· = k)) p Q :=
  h.weaken (fun _ hs => hs.trans_ne hk) fun _ _ h => h

lemma advance (mode : Mode) :
    Triple (Scanner.Sees mode (· ≠ .dedent)) (Parser.advance mode) fun _ => Scanner.Calm := by
  intro s hg hs
  have hcalm : (s.scanner.settle mode).Calm :=
    not_not.1 (mt (Scanner.kind_eq_dedent_iff hg.scanner.toSane).2 hs)
  rw [hg.after_advance]
  split
  · exact ⟨.look mode (.refl s), hcalm⟩
  · next hk => exact ⟨.take mode (.refl s) hk hs, (Scanner.Calm.after hg.scanner.toSane hcalm).1⟩

lemma peekKind {f : Kind → Parser β} (h : ∀ k, K k → Triple (Scanner.Sees mode (· = k)) (f k) R) :
    Triple (Scanner.Sees mode K) (Parser.peekKind mode >>= f) R := by
  intro s hg hs
  rw [after_bind, answer_bind, hg.answer_peekKind, hg.after_peekKind]
  exact (h _ hs (hg.look mode) (kindAt_look s mode)).imp_left (Forward.trans (.look mode (.refl s)))

lemma isAt {kind : Kind} {f : Bool → Parser β}
    (h : ∀ k, K k → Triple (Scanner.Sees mode (· = k)) (f (decide (k = kind))) R) :
    Triple (Scanner.Sees mode K) (Parser.isAt mode kind >>= f) R := by
  unfold Parser.isAt
  rw [bind_assoc]
  exact .peekKind h

/-- Where a keyword is found, a command stands next. -/
lemma peekCommand {f : Option Kind → Parser β} (hnone : Triple (Scanner.Sees mode K) (f none) R)
    (h : ∀ keyword, K .commandStart →
      Triple (Scanner.Sees mode (· = .commandStart)) (f (some keyword)) R) :
    Triple (Scanner.Sees mode K) (Parser.peekCommand mode >>= f) R := by
  intro s hg hs
  have hforward : Forward s (s.look mode) := .look mode (.refl s)
  have hkind : (s.look mode).kindAt mode = s.kindAt mode := kindAt_look s mode
  rw [after_bind, answer_bind, hg.answer_peekCommand, hg.after_peekCommand]
  rcases hc : s.commandAt mode with _ | keyword
  · exact (hnone (hg.look mode) (by rwa [Scanner.Sees, ← kindAt, hkind])).imp_left hforward.trans
  · have hk := kindAt_of_commandAt hc
    refine (h keyword ?_ (hg.look mode) (hkind.trans hk)).imp_left hforward.trans
    rwa [Scanner.Sees, ← kindAt, hk] at hs

lemma errorOf (e : GrammarError) (m : String) [hm : Listed m messages] :
    Triple (Scanner.Sees mode K) (Parser.errorOf mode e m) fun _ => Scanner.Sees mode K := by
  intro s hg hs
  refine ⟨?_, ?_⟩
  · rw [hg.after_errorOf]
    split
    · exact .look mode (.refl s)
    · exact .report mode e m hm.mem (.refl s) (.look mode (.refl s))
  · change K (((Parser.errorOf mode e m).after s).kindAt mode)
    rwa [(Good.kindAt_errorOf hg mode e m).1]

lemma error (m : String) [Listed m messages] :
    Triple (Scanner.Sees mode K) (Parser.error mode m) fun _ => Scanner.Sees mode K :=
  .errorOf _ m

lemma poll : Triple P Parser.poll fun _ => P :=
  fun s _ hs => ⟨.poll (.refl s), by rwa [scanner_poll]⟩

/-- Behind the end of a line no line break stands next. -/
lemma endsLine [EndsLine p] (h : Triple P p Q) : Triple P p fun _ => Scanner.LineOver := by
  intro s hg hs
  have hforward := (h hg hs).1
  exact ⟨hforward, (EndsLine.after p hg).kind_ne (hforward.good hg) .statement rfl rfl⟩

end

end Triple

end Parser

end DialogueScript
