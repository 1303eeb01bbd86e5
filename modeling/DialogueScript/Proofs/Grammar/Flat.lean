import DialogueScript.Proofs.Grammar.Script
import Mathlib.Logic.Basic

/-!
Rules that never compare an indentation. They neither open a block nor close one on their own: a
block is closed only where the indentation of the current line asked for it before. All rules for
headers, and the rules for a line of a body behind its first token, are of this kind.
-/

set_option synthInstance.maxSize 512

namespace DialogueScript

namespace Scanner

/-- The indentation of the current line closes no further block. -/
def Calm (s : Scanner) : Prop := ∀ p, s.line = some p → p.dedents = 0

section
variable {s : Scanner} {mode : Mode}

/-- A block is closed next exactly if the indentation asks for it. -/
lemma kind_eq_dedent_iff (hg : s.Sane) :
    (s.ahead mode).token.kind = .dedent ↔ ¬ (s.settle mode).Calm := by
  have ht := hg.takes mode
  generalize s.settle mode = u, s.ahead mode = l, s.after mode = s' at ht
  have hcalm {p : LinePlan} (hline : u.line = some p) (hd : p.dedents = 0) : u.Calm := by
    intro q hq
    obtain rfl : p = q := by simpa [hline] using hq
    exact hd
  cases ht with
  | dedent p hline hd => exact iff_of_true rfl fun h => absurd (h p hline) (by omega)
  | blank p b t' hm hline hd => exact iff_of_false (by simp) (by simp [hcalm hline hd])
  | indent p w hline hd => exact iff_of_false (by simp [Token.ofParts]) (by simp [hcalm hline hd])
  | mismatch p _ hline hd he hl =>
      exact iff_of_false (by simp [hl, Token.ofParts]) (by simp [hcalm hline hd])
  | content _ hidle hblank hl =>
    refine iff_of_false ?_ (not_not_intro fun p hp => (hidle p hp).1)
    rw [hl, content_token, Token.ofParts]
    have hread := reading_next mode (u.body mode)
    generalize Lexeme.next mode (u.body mode) = x, behind mode (u.body mode) = t' at hread
    cases hread with
    | eof | newline => simp
    | plain _ _ _ _ hfits =>
      intro hk
      have := hfits.plain.structural
      rw [show x.kind = Kind.dedent from hk] at this
      simp [Kind.isStructural] at this

/-- A plan that was made before stays as it is. -/
lemma Calm.of_settle (h : (s.settle mode).Calm) : s.Calm := by
  intro p hp
  refine h p ?_
  cases hm : mode.isIndentSensitive
  · rwa [settle_of_insensitive s hm]
  · simp [settle_of_sensitive s hm, hp]

lemma calm_of_kind_ne (hg : s.Sane) (h : (s.ahead mode).token.kind ≠ .dedent) : s.Calm :=
  .of_settle (not_not.1 (mt (kind_eq_dedent_iff hg).2 h))

lemma Calm.kind_ne (hg : s.Sane) (h : (s.settle mode).Calm) : (s.ahead mode).token.kind ≠ .dedent :=
  fun hk => (kind_eq_dedent_iff hg).1 hk h

/-- Where one mode sees that a block is closed, so do those that compare indentations. -/
lemma kind_ne_dedent (hg : s.Sane) (hm : mode.isIndentSensitive = true)
    (h : (s.ahead mode).token.kind ≠ .dedent) (mode' : Mode) :
    (s.ahead mode').token.kind ≠ .dedent := by
  have hcalm : (s.settle mode).Calm := not_not.1 (mt (kind_eq_dedent_iff hg).2 h)
  refine Calm.kind_ne hg ?_
  cases hm' : mode'.isIndentSensitive
  · rw [settle_of_insensitive s hm']
    exact hcalm.of_settle
  · rwa [settle_of_sensitive s hm', ← settle_of_sensitive s hm]

/-- Taking a token that closes no block leaves the open blocks open. -/
lemma Calm.after (hg : s.Sane) (h : (s.settle mode).Calm) :
    (s.after mode).Calm ∧ s.stack.depth ≤ (s.after mode).stack.depth := by
  have ht := hg.takes mode
  have hstack := settle_stack s mode
  rw [← hstack]
  generalize s.settle mode = u, s.ahead mode = l, s.after mode = s' at ht h
  cases ht with
  | dedent p hline hd => exact absurd (h p hline) (by omega)
  | blank p b t' hm hline hd => exact ⟨by simp [Calm, hd], le_rfl⟩
  | indent p w hline hd =>
    exact ⟨by simp [Calm, hd], by simp [IndentStack.depth, IndentStack.push]⟩
  | mismatch | content => exact ⟨by simp [Calm], le_rfl⟩

/-- A new line of which nothing has been looked at closes nothing yet. -/
lemma Ended.calm (hg : s.Sane) (h : s.Ended) : s.Calm := by
  rcases h with h | h
  · simp only [isFresh, Bool.and_eq_true, Option.isNone_iff_eq_none] at h
    simp [Calm, h.1.2]
  · have hk : (s.ahead .header).token.kind ≠ .dedent := by simp [h]
    exact calm_of_kind_ne hg hk

end

end Scanner

namespace Parser

open ParserState

variable {α β σ : Type}

/-! ### Reading without comparing indentations -/

/-- All that the grammar reports in words of its own, as long as every statement takes something. -/
abbrev messages : List String :=
  ["expected `)`", "expected `,`", "expected `---`", "expected `:`", "expected `<<case`",
    "expected `<<endenum>>`", "expected `<<endif>>`", "expected `<<endonce>>`",
    "expected `<<if` or `<<once` after line text", "expected `===`", "expected `=` or `to`",
    "expected `=`, `to` or a compound assignment", "expected `>>`", "expected `\x7d`",
      "expected `if`",
    "expected a `title` header", "expected a command", "expected a function call",
    "expected a header or `---`", "expected a name", "expected a node header",
    "expected a variable name", "expected a variable", "expected an argument",
    "expected at least one node", "expected end of line", "expected expression",
    "expected hashtag text", "expected line text", "expected node title",
    "expected the end of the indented block", "expression is nested too deeply",
    "only `<<case>>` lines are allowed in an enum", "statement is nested too deeply",
    "unexpected end of block", "this clause has no open `<<if>>` to belong to",
    "`<<endonce>>` without an open `<<once>>`", "enum cases are only allowed inside `<<enum>>`",
    "`<<elseif>>` after `<<else>>` cannot be attached to a chain",
    "a second `<<else>>` cannot be attached to a chain", "a node can only have one `title` header"]

/-- A message is one of some. -/
class Listed (m : String) (ms : List String) : Prop where
  mem : m ∈ ms

instance (m : String) (ms : List String) : Listed m (m :: ms) := ⟨List.mem_cons_self⟩

instance (m m' : String) (ms : List String) [h : Listed m ms] : Listed m (m' :: ms) :=
  ⟨List.mem_cons_of_mem m' h.mem⟩

/-- The states that a rule can lead to without comparing an indentation. -/
inductive Skims : ParserState → ParserState → Prop where
  | refl (s : ParserState) : Skims s s
  | look {s₀ s : ParserState} (mode : Mode) : Skims s₀ s → mode.isIndentSensitive = false →
      Skims s₀ (s.look mode)
  | take {s₀ s : ParserState} (mode : Mode) : Skims s₀ s → mode.isIndentSensitive = false →
      s.kindAt mode ≠ .eof → Skims s₀ (s.take mode)
  | report {s₀ s₁ s : ParserState} (mode : Mode) (e : GrammarError) (m : String) : m ∈ messages →
      Skims s₀ s₁ → Skims s₁ s → Skims s₀ (s.report (s₁.rangeAt mode) e m)
  | node {s₀ s s' : ParserState} (k : Kind) : Skims s₀ s → Skims s.start s' →
      Skims s₀ (s'.complete k)
  | abandon {s₀ s s' : ParserState} : Skims s₀ s → Skims s.start s' → Skims s₀ s'.abandon
  | around {s₀ s s' : ParserState} (k : Kind) : Skims s₀ s → Skims s.precede s' →
      Skims s₀ (s'.complete k)

namespace Skims

variable {s₀ s s' : ParserState}

lemma trans (h : Skims s₀ s) (h' : Skims s s') : Skims s₀ s' := by
  induction h' with
  | refl => exact h
  | look mode _ hm ih => exact .look mode (ih h) hm
  | take mode _ hm hk ih => exact .take mode (ih h) hm hk
  | report mode e m hm _ h₁ ih _ => exact .report mode e m hm (ih h) h₁
  | node k _ h₁ ih _ => exact .node k (ih h) h₁
  | abandon _ h₁ ih _ => exact .abandon (ih h) h₁
  | around k _ h₁ ih _ => exact .around k (ih h) h₁

lemma reads (h : Skims s₀ s) : Reads s₀ s := by
  induction h with
  | refl => exact .refl _
  | look mode _ _ ih => exact .look mode ih
  | take mode _ _ hk ih => exact .take mode ih hk
  | report mode e m _ _ _ ih ih' => exact .report mode e m ih ih'
  | node k _ _ ih ih' => exact .node k ih ih'
  | abandon _ _ ih ih' => exact .abandon ih ih'
  | around k _ _ ih ih' => exact .around k ih ih'

lemma good (h : Skims s₀ s) (hg : s₀.Good) : s.Good := (h.reads.follows hg).good

/-- **What looking and taking in such modes keeps of the scanner**, every such rule keeps. -/
lemma keeps {I : Scanner → Prop} (h : Skims s₀ s) (hg : s₀.Good) (h₀ : I s₀.scanner)
    (hlook : ∀ ⦃u : ParserState⦄ (mode : Mode), u.Good → mode.isIndentSensitive = false →
      I u.scanner → I (u.look mode).scanner)
    (htake : ∀ ⦃u : ParserState⦄ (mode : Mode), u.Good → mode.isIndentSensitive = false →
      I u.scanner → I (u.take mode).scanner) : I s.scanner := by
  induction h with
  | refl => exact h₀
  | look mode h hm ih => exact hlook mode (h.good hg) hm (ih hg h₀)
  | take mode h hm _ ih => exact htake mode (h.good hg) hm (ih hg h₀)
  | report mode e m _ h _ ih ih' =>
    rw [scanner_report]
    exact ih' (h.good hg) (ih hg h₀)
  | node k h _ ih ih' => exact ih' (good_start (h.good hg)) (ih hg h₀)
  | abandon h _ ih ih' => exact ih' (good_start (h.good hg)) (ih hg h₀)
  | around k h _ ih ih' => exact ih' (good_precede (h.good hg)) (ih hg h₀)

end Skims

/-- A rule that never compares an indentation. -/
class Flat (p : Parser α) : Prop where
  skims : ∀ ⦃s⦄, s.Good → Skims s (p.after s)

namespace Flat

instance pure (a : α) : Flat (Pure.pure a : Parser α) := ⟨fun s _ => .refl s⟩

instance bind (p : Parser α) (f : α → Parser β) [hp : Flat p] [hf : ∀ a, Flat (f a)] :
    Flat (p >>= f) where
  skims s hg := by
    have h := hp.skims hg
    rw [after_bind]
    exact h.trans ((hf _).skims (h.good hg))

lemma seq {p : Parser α} {f : α → Parser β} (hp : Flat p) (hf : ∀ a, Flat (f a)) : Flat (p >>= f) :=
  inferInstance

instance ite {c : Prop} [Decidable c] (p q : Parser α) [hp : Flat p] [hq : Flat q] :
    Flat (if c then p else q) := by
  split
  · exact hp
  · exact hq

/-- A rule that is run only under a condition, and what follows it in any case. -/
lemma optional {c : Prop} [Decidable c] {p : Parser Unit} {f : Unit → Parser β} (hp : Flat p)
    (hf : ∀ a, Flat (f a)) : Flat (if c then p >>= f else f ()) :=
  inferInstance

instance node (k : Kind) (p : Parser α) [hp : Flat p] : Flat (node k p) :=
  ⟨fun s hg => .node k (.refl s) (hp.skims (good_start hg))⟩

lemma inNode {k : Kind} {p : Parser α} (hp : Flat p) : Flat (Parser.node k p) := inferInstance

instance nodeOf (p : Parser Kind) [hp : Flat p] : Flat (nodeOf p) :=
  ⟨fun s hg => .node _ (.refl s) (hp.skims (good_start hg))⟩

lemma inNodeOf {p : Parser Kind} (hp : Flat p) : Flat (Parser.nodeOf p) := inferInstance

instance nodeAround (k : Kind) (p : Parser Unit) [hp : Flat p] : Flat (nodeAround k p) :=
  ⟨fun s hg => .around k (.refl s) (hp.skims (good_precede hg))⟩

lemma inNodeIf {k : Kind} {p : Parser Bool} (hp : Flat p) : Flat (nodeIf k p) where
  skims s hg := by
    have h := hp.skims (good_start hg)
    unfold Parser.after at h ⊢
    rw [run_nodeIf]
    dsimp only
    split
    · exact .node k (.refl s) h
    · exact .abandon (.refl s) h

lemma loopUpTo {step : σ → Parser (ForInStep σ)} (h : ∀ a, Flat (step a)) (n : Nat) (a : σ) :
    Flat (loopUpTo step n a) := by
  induction n generalizing a with
  | zero => exact .pure a
  | succ n ih =>
    rw [Parser.loopUpTo]
    refine .seq (h a) fun next => ?_
    cases next
    · exact .pure _
    · exact ih _

instance loop (step : σ → Parser (ForInStep σ)) (a : σ) [h : ∀ a, Flat (step a)] :
    Flat (loop step a) :=
  ⟨fun s hg => (loopUpTo h (s.scanner.budget + 1) a).skims hg⟩

instance repeatWhile (condition : Parser Bool) (rule : Parser Unit) [Flat condition] [Flat rule] :
    Flat (repeatWhile condition rule) := by
  unfold Parser.repeatWhile whileStep
  infer_instance

/-- An error may be reported at a token that was looked at earlier. -/
lemma ranged {mode : Mode} (hm : mode.isIndentSensitive = false) {p : Parser α} (hp : Flat p)
    {problem : α → Option (GrammarError × String)}
    (hproblem : ∀ a e m, problem a = some (e, m) → m ∈ messages) :
    Flat (peekRange mode >>= fun r => p >>= fun a => reportAt r (problem a) >>= fun _ =>
      Pure.pure a) where
  skims s hg := by
    have h := (Skims.look mode (.refl s) hm).trans (hp.skims (hg.look mode))
    simp only [after_bind, hg.answer_peekRange, hg.after_peekRange, after_pure]
    rcases he : problem (p.answer (s.look mode)) with _ | ⟨e, m⟩
    · exact h
    · exact .report mode e m (hproblem _ e m he) (.refl s) h

end Flat

/-! ### Tokens and errors -/

instance : Fact (Mode.isIndentSensitive .header = false) := ⟨rfl⟩
instance : Fact (Mode.isIndentSensitive .headerValue = false) := ⟨rfl⟩
instance : Fact (Mode.isIndentSensitive .whenHeader = false) := ⟨rfl⟩
instance : Fact (Mode.isIndentSensitive .text = false) := ⟨rfl⟩
instance : Fact (Mode.isIndentSensitive .hashtag = false) := ⟨rfl⟩
instance : Fact (Mode.isIndentSensitive .expr = false) := ⟨rfl⟩
instance : Fact (Mode.isIndentSensitive .name = false) := ⟨rfl⟩
instance : Fact (Mode.isIndentSensitive .command = false) := ⟨rfl⟩
instance : Fact (Mode.isIndentSensitive .commandText = false) := ⟨rfl⟩

section
variable (mode : Mode) [hm : Fact (mode.isIndentSensitive = false)]
include hm

instance : Flat (peekKind mode) where
  skims s hg := by
    rw [hg.after_peekKind]
    exact .look mode (.refl s) hm.out

instance : Flat (peekCommand mode) where
  skims s hg := by
    rw [hg.after_peekCommand]
    exact .look mode (.refl s) hm.out

instance (kind : Kind) : Flat (isAt mode kind) := by
  unfold isAt
  infer_instance

instance (kinds : KindSet) : Flat (isAtAny mode kinds) := by
  unfold isAtAny
  infer_instance

instance : Flat (isAtLineEnd mode) := by
  unfold isAtLineEnd
  infer_instance

instance : Flat (isInLine mode) := by
  unfold isInLine
  infer_instance

instance (kinds : KindSet) : Flat (isBefore mode kinds) := by
  unfold isBefore
  infer_instance

instance : Flat (advance mode) where
  skims s hg := by
    rw [hg.after_advance]
    split
    · exact .look mode (.refl s) hm.out
    · exact .take mode (.refl s) hm.out ‹_›

instance (kind : Kind) : Flat (eat mode kind) := by
  unfold eat
  infer_instance

instance (e : GrammarError) (m : String) [h : Listed m messages] : Flat (errorOf mode e m) where
  skims s hg := by
    rw [hg.after_errorOf]
    split
    · exact .look mode (.refl s) hm.out
    · exact .report mode e m h.mem (.refl s) (.look mode (.refl s) hm.out)

instance (m : String) [Listed m messages] : Flat (error mode m) := by
  unfold error
  infer_instance

instance (kind : Kind) (m : String) [Listed m messages] : Flat (expect mode kind m) := by
  unfold expect
  infer_instance

/-! ### Recovery -/

instance (m : String) [Listed m messages] (recovery : KindSet) :
    Flat (errorRecover mode m recovery) := by
  unfold errorRecover
  infer_instance

omit hm in
instance : Flat advanceLine := by
  unfold advanceLine
  infer_instance

omit hm in
instance (ends : KindSet) : Flat (advanceTo ends) := by
  unfold advanceTo
  infer_instance

instance : Flat (skipLine mode) := by
  unfold skipLine
  infer_instance

instance (m : String) [Listed m messages] : Flat (errorLine mode m) := by
  unfold errorLine
  infer_instance

omit hm in
instance : Flat eatNewline := by
  unfold eatNewline
  infer_instance

instance : Flat (endOfLine mode) := by
  unfold endOfLine
  infer_instance

instance : Flat (commandEnd mode) := by
  unfold commandEnd
  infer_instance

end

instance (recovery : KindSet) : Flat (name recovery) := by
  unfold name
  infer_instance

/-! ### Expressions -/

instance (opened : Nat) : Flat (deepStep opened) := by
  unfold deepStep
  infer_instance

instance : Flat tooDeep := by
  unfold tooDeep
  infer_instance

instance : Flat variableExpr := by
  unfold variableExpr
  infer_instance

instance : Flat memberName := by
  unfold memberName
  infer_instance

section
variable (expr : Parser (Option Kind)) [Flat expr]

instance : Flat (argStep expr) := by
  unfold argStep argEnd
  infer_instance

instance : Flat (argList expr) := by
  unfold argList
  infer_instance

instance : Flat (wordExpr expr) := by
  unfold wordExpr wordKind wordTail
  refine .seq (.inNodeOf (.seq inferInstance fun _ => .seq inferInstance fun k => ?_)) inferInstance
  split <;> infer_instance

instance : Flat (primaryExpr expr) := by
  unfold primaryExpr
  refine .seq inferInstance fun k => ?_
  unfold primaryAt parens literalExpr
  split <;> infer_instance

end

section
variable (operand : Parser (Option Kind)) {tiers : Nat}

lemma flat_operatorStep (h : ∀ floor, Flat (climb operand tiers floor)) (floor : Nat)
    (whole : Kind) :
    Flat (operatorStep (climb operand tiers) floor whole) := by
  refine .seq inferInstance fun k => ?_
  split <;> infer_instance

instance [Flat operand] (tiers floor : Nat) : Flat (climb operand tiers floor) := by
  induction tiers generalizing floor with
  | zero => rwa [climb]
  | succ tiers ih =>
    have := flat_operatorStep operand ih floor
    rw [climb]
    unfold operators
    refine .seq inferInstance fun first => ?_
    split <;> infer_instance

instance [Flat operand] (tiers floor : Nat) (whole : Kind) :
    Flat (operatorStep (climb operand tiers) floor whole) :=
  flat_operatorStep operand inferInstance floor whole

end

instance (levels : Nat) : Flat (operand levels) := by
  induction levels with
  | zero => exact inferInstanceAs (Flat tooDeep)
  | succ levels ih =>
    rw [operand]
    unfold exprOf
    infer_instance

instance (levels : Nat) : Flat (expr levels) := by
  unfold expr exprOf
  infer_instance

/-! ### Lines -/

section
variable (levels : Nat) (mode : Mode) [hm : Fact (mode.isIndentSensitive = false)]
include hm

instance : Flat (interpolation levels mode) := by
  unfold interpolation interpolationEnd
  infer_instance

instance (found : Bool) : Flat (textStep levels mode found) := by
  have : Fact (Mode.isIndentSensitive (if found = true then .text else mode) = false) := by
    cases found
    · exact hm
    · exact ⟨rfl⟩
  unfold textStep
  refine .seq inferInstance fun k => ?_
  split <;> infer_instance

instance : Flat (lineText levels mode) := by
  unfold lineText
  exact .inNodeIf inferInstance

omit hm in
instance : Flat (lineCondition levels) := by
  unfold lineCondition conditionRest
  infer_instance

omit hm in
instance : Flat hashtag := by
  unfold hashtag
  infer_instance

omit hm in
instance : Flat hashtags := by
  unfold hashtags
  infer_instance

omit hm in
instance : Flat (lineRest levels) := by
  unfold lineRest
  refine .seq inferInstance fun _ => ?_
  dsimp only
  split
  · refine .seq inferInstance fun command => ?_
    split <;> infer_instance
  · infer_instance

instance : Flat (line levels mode) := by
  rw [line]
  dsimp only
  infer_instance

end

/-! ### Commands behind their first token -/

instance : Flat commandClose := by
  unfold commandClose
  infer_instance

instance : Flat commandVariable := by
  unfold commandVariable
  infer_instance

instance : Flat eatEquals := by
  unfold eatEquals
  infer_instance

instance (levels : Nat) (found : Bool) : Flat (freeStep levels found) := by
  unfold freeStep
  refine .seq inferInstance fun k => ?_
  split <;> infer_instance

/-! ### Headers and files -/

instance : Flat whenCondition := by
  unfold whenCondition
  refine .inNode (.seq inferInstance fun k => ?_)
  unfold conditionAt
  split <;> infer_instance

instance : Flat titleHeader := by
  unfold titleHeader titleRest
  infer_instance

instance : Flat whenHeader := by
  unfold whenHeader
  infer_instance

instance : Flat genericHeader := by
  unfold genericHeader headerRest
  infer_instance

instance (titles : Nat) : Flat (headerStep titles) := by
  refine .seq inferInstance fun k => ?_
  unfold headerAt
  split <;> infer_instance

instance : Flat headers := by
  unfold headers
  infer_instance

instance : Flat nodeHeaders := by
  refine .ranged rfl inferInstance fun titles e m h => ?_
  unfold titleProblem at h
  split at h
  · obtain ⟨-, rfl⟩ : _ ∧ _ := by simpa using h
    exact Listed.mem
  · simp at h

instance : Flat fileHashtag := by
  unfold fileHashtag
  infer_instance

instance : Flat strayLine := by
  unfold strayLine
  infer_instance

end Parser

end DialogueScript
