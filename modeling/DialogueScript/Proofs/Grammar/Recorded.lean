import DialogueScript.Grammar.Script
import DialogueScript.Proofs.Grammar.Loop
import DialogueScript.Proofs.Tree.Record

/-!
Rules keep the discipline of the record: each closes the nodes that it opens, innermost first, and a
node is put around another right after that one has been completed.
-/

set_option synthInstance.maxSize 512

namespace DialogueScript

namespace ParserState

/-- The discipline has been kept so far, and these are the open nodes. -/
def Disciplined (base : List (List Tree)) (outer : List (Nat × Bool × Level)) (s : ParserState) :
    Prop :=
  ∃ p, Tracks base s.forest s.record p ∧ p.outer = outer

namespace Disciplined

variable {base : List (List Tree)} {outer : List (Nat × Bool × Level)} {s u : ParserState}
  {marker : Nat} {level : Level}

lemma base_le (h : s.Disciplined base outer) : base.length ≤ outer.length := by
  obtain ⟨p, hp, rfl⟩ := h
  have := congrArg List.length hp.outer_eq
  simp at this
  omega

lemma token (h : s.Disciplined base outer) {t : Token} (hforest : u.forest = s.forest.add (.leaf t))
    (hrecord : u.record = s.record.token t) : u.Disciplined base outer := by
  obtain ⟨p, hp, houter⟩ := h
  refine ⟨{ p with inner := p.inner.add (.leaf t) }, ?_, houter⟩
  rw [hforest, hrecord]
  exact hp.token t

lemma start (h : s.Disciplined base outer) :
    ∃ marker level, s.start.Disciplined base ((marker, false, level) :: outer) := by
  obtain ⟨p, hp, rfl⟩ := h
  exact ⟨_, _, _, hp.start, rfl⟩

lemma precede (h : s.Disciplined base outer) (hfresh : s.record.Fresh) :
    ∃ marker level, s.precede.Disciplined base ((marker, true, level) :: outer) := by
  obtain ⟨p, hp, rfl⟩ := h
  obtain ⟨level, inner, hprecede⟩ := hp.precede hfresh
  exact ⟨_, _, _, hprecede, rfl⟩

lemma complete {b : Bool} (h : s.Disciplined base ((marker, b, level) :: outer))
    (hbase : base.length ≤ outer.length) {k : Kind} (hk : k ≠ .tombstone) :
    (s.complete k).Disciplined base outer := by
  obtain ⟨p, hp, houter⟩ := h
  exact ⟨_, hp.complete houter hbase hk, rfl⟩

lemma abandon (h : s.Disciplined base ((marker, false, level) :: outer))
    (hbase : base.length ≤ outer.length) : s.abandon.Disciplined base outer := by
  obtain ⟨p, hp, houter⟩ := h
  exact ⟨_, hp.abandon houter hbase, rfl⟩

end Disciplined

end ParserState

namespace Parser

open ParserState

variable {α β σ : Type}

/-- A rule that keeps the discipline, and leaves the nodes open that were open before. -/
class Recorded (p : Parser α) : Prop where
  keeps : ∀ ⦃base outer s⦄, s.Disciplined base outer → (p.after s).Disciplined base outer

/-- Where a rule finds a node, it has completed that node last. -/
class Completes (p : Parser (Option Kind)) : Prop where
  fresh : ∀ ⦃s⦄, (p.answer s).isSome = true → (p.after s).record.Fresh

namespace Recorded

/-! ### Sequences -/

instance (a : α) : Recorded (pure a : Parser α) := ⟨fun _ _ _ h => h⟩

instance (p : Parser α) (f : α → Parser β) [hp : Recorded p] [hf : ∀ a, Recorded (f a)] :
    Recorded (p >>= f) :=
  ⟨fun _ _ _ h => (hf _).keeps (hp.keeps h)⟩

lemma seq {p : Parser α} {f : α → Parser β} (hp : Recorded p) (hf : ∀ a, Recorded (f a)) :
    Recorded (p >>= f) :=
  inferInstance

instance {c : Prop} [Decidable c] (p q : Parser α) [hp : Recorded p] [hq : Recorded q] :
    Recorded (if c then p else q) := by
  split
  · exact hp
  · exact hq

instance : Recorded (get : Parser ParserState) := ⟨fun _ _ _ h => h⟩

instance (p : Parser α) (stuck on : Parser β) [hp : Recorded p] [hstuck : Recorded stuck]
    [hon : Recorded on] : Recorded (ifStuck p stuck on) where
  keeps _ _ _ h := by
    rw [Parser.after, run_ifStuck]
    split
    · exact hstuck.keeps (hp.keeps h)
    · exact hon.keeps (hp.keeps h)

/-- What every step of a loop keeps, the loop keeps. -/
lemma after_loop {step : σ → Parser (ForInStep σ)} {I : ParserState → Prop}
    (h : ∀ a ⦃s⦄, I s → I ((step a).after s)) (a : σ) {s : ParserState} (hs : I s) :
    I ((loop step a).after s) := by
  unfold Parser.after
  rw [run_loop]
  generalize s.scanner.budget + 1 = n
  induction n generalizing a s with
  | zero => exact hs
  | succ n ih =>
    rcases hb : (step a).answer s with b | b
    · rw [run_loopUpTo_done hb]
      exact h a hs
    · rw [run_loopUpTo_yield hb]
      exact ih b (h a hs)

instance (step : σ → Parser (ForInStep σ)) (a : σ) [h : ∀ a, Recorded (step a)] :
    Recorded (loop step a) :=
  ⟨fun _ _ _ hs => after_loop (fun a _ hu => (h a).keeps hu) a hs⟩

instance (condition : Parser Bool) (rule : Parser Unit) [Recorded condition] [Recorded rule] :
    Recorded (repeatWhile condition rule) := by
  unfold repeatWhile whileStep
  infer_instance

/-! ### Tokens and errors -/

instance (mode : Mode) : Recorded (peek mode) := ⟨fun _ _ _ h => h⟩

instance (mode : Mode) : Recorded (peekKind mode) := ⟨fun _ _ _ h => h⟩

instance (mode : Mode) : Recorded (peekRange mode) := ⟨fun _ _ _ h => h⟩

instance (mode : Mode) : Recorded (peekCommand mode) := ⟨fun _ _ _ h => h⟩

instance (mode : Mode) (kind : Kind) : Recorded (isAt mode kind) := ⟨fun _ _ _ h => h⟩

instance (mode : Mode) (kinds : KindSet) : Recorded (isAtAny mode kinds) := ⟨fun _ _ _ h => h⟩

instance (mode : Mode) : Recorded (isAtLineEnd mode) := ⟨fun _ _ _ h => h⟩

instance (mode : Mode) : Recorded (isInLine mode) := ⟨fun _ _ _ h => h⟩

instance (mode : Mode) (kinds : KindSet) : Recorded (isBefore mode kinds) := ⟨fun _ _ _ h => h⟩

instance (mode : Mode) : Recorded (bump mode) := ⟨fun _ _ _ h => h.token rfl rfl⟩

instance (mode : Mode) : Recorded (advance mode) := by
  unfold advance
  infer_instance

instance : Recorded advanceRest where
  keeps _ _ s h := by
    simp only [advanceRest, Parser.after, StateT.run_modify]
    rcases s.scanner.bumpRest with ⟨_ | next, scanner⟩
    · exact h
    · exact h.token rfl rfl

instance (mode : Mode) (kind : Kind) : Recorded (eat mode kind) := by
  unfold eat
  infer_instance

instance (range : Range) (e : GrammarError) (m : String) : Recorded (errorAt range e m) where
  keeps _ _ s h := by
    rw [after_errorAt, report]
    split <;> exact h

instance (mode : Mode) (e : GrammarError) (m : String) : Recorded (errorOf mode e m) := by
  unfold errorOf
  infer_instance

instance (mode : Mode) (m : String) : Recorded (error mode m) := by
  unfold error
  infer_instance

instance (range : Range) (problem : Option (GrammarError × String)) :
    Recorded (reportAt range problem) := by
  unfold reportAt
  split <;> infer_instance

instance (mode : Mode) (kind : Kind) (m : String) : Recorded (expect mode kind m) := by
  unfold expect
  infer_instance

instance : Recorded poll where
  keeps _ _ s h := by
    rcases poll_cases s with ⟨-, hs⟩ | ⟨-, -, hs⟩ | ⟨-, -, hs⟩ <;> rw [hs] <;> exact h

instance : Recorded isCancelled := ⟨fun _ _ _ h => h⟩

instance : Recorded checkpoint := ⟨fun _ _ _ h => h⟩

/-! ### Nodes -/

lemma node {k : Kind} (hk : k ≠ .tombstone) (p : Parser α) [hp : Recorded p] :
    Recorded (Parser.node k p) where
  keeps _ _ _ h := by
    obtain ⟨marker, level, hstart⟩ := h.start
    exact (hp.keeps hstart).complete h.base_le hk

instance (p : Parser α) [Recorded p] : Recorded (Parser.node .error p) := .node (by simp) p

lemma nodeOf (p : Parser Kind) [hp : Recorded p] (hk : ∀ s, p.answer s ≠ .tombstone) :
    Recorded (Parser.nodeOf p) where
  keeps _ _ _ h := by
    obtain ⟨marker, level, hstart⟩ := h.start
    exact (hp.keeps hstart).complete h.base_le (hk _)

lemma nodeIf {k : Kind} (hk : k ≠ .tombstone) (p : Parser Bool) [hp : Recorded p] :
    Recorded (Parser.nodeIf k p) where
  keeps _ _ s h := by
    obtain ⟨marker, level, hstart⟩ := h.start
    have hmid := hp.keeps hstart
    rw [Parser.after, run_nodeIf]
    split
    · exact hmid.complete h.base_le hk
    · exact hmid.abandon h.base_le

/-- A node is put around another right after that one has been completed. -/
lemma after_nodeAround {base : List (List Tree)} {outer : List (Nat × Bool × Level)}
    {s : ParserState} {k : Kind} (hk : k ≠ .tombstone) (p : Parser Unit) [hp : Recorded p]
    (h : s.Disciplined base outer) (hfresh : s.record.Fresh) :
    ((nodeAround k p).after s).Disciplined base outer := by
  obtain ⟨marker, level, hprecede⟩ := h.precede hfresh
  exact (hp.keeps hprecede).complete h.base_le hk

lemma fresh_nodeAround (k : Kind) (p : Parser Unit) (s : ParserState) :
    ((nodeAround k p).after s).record.Fresh :=
  Record.fresh_complete _ _

/-! ### Recovery -/

instance (mode : Mode) (m : String) (recovery : KindSet) :
    Recorded (errorRecover mode m recovery) := by
  unfold errorRecover
  infer_instance

instance : Recorded advanceLine := by
  unfold advanceLine
  infer_instance

instance (ends : KindSet) : Recorded (advanceTo ends) := by
  unfold advanceTo
  infer_instance

instance (mode : Mode) : Recorded (skipLine mode) := by
  unfold skipLine
  infer_instance

instance (mode : Mode) (m : String) : Recorded (errorLine mode m) := by
  unfold errorLine
  infer_instance

instance : Recorded eatNewline := by
  unfold eatNewline
  infer_instance

instance (mode : Mode) : Recorded (endOfLine mode) := by
  unfold endOfLine
  infer_instance

instance (mode : Mode) : Recorded (commandEnd mode) := by
  unfold commandEnd
  infer_instance

instance (recovery : KindSet) : Recorded (name recovery) := by
  have : Recorded (Parser.node .name (advance .name)) := .node (by simp) _
  unfold name
  infer_instance

/-! ### Operands -/

instance : Recorded tooDeep := by
  have (opened : Nat) : Recorded (deepStep opened) := by
    unfold deepStep
    infer_instance
  unfold tooDeep
  infer_instance

instance : Recorded variableExpr := by
  unfold variableExpr
  exact .node (by simp) _

instance : Recorded memberName := by
  unfold memberName
  infer_instance

section
variable (expr : Parser (Option Kind)) [Recorded expr]

instance : Recorded (argList expr) := by
  have : Recorded (argStep expr) := by
    unfold argStep argEnd
    infer_instance
  unfold argList
  exact .node (by simp) _

instance : Recorded (parens expr) := by
  unfold parens
  exact .node (by simp) _

/-- What a word turns out to be is put around it. -/
lemma after_wordTail {base : List (List Tree)} {outer : List (Nat × Bool × Level)} {s : ParserState}
    (h : s.Disciplined base outer) (hfresh : s.record.Fresh) :
    ((wordTail expr).after s).Disciplined base outer := by
  have hlook : ((isAt .expr .leftParen).after s).Disciplined base outer := h
  have hfreshLook : ((isAt .expr .leftParen).after s).record.Fresh := hfresh
  rw [wordTail, after_bind, after_ite]
  generalize (isAt .expr .leftParen).after s = u at hlook hfreshLook
  split <;> rw [after_bind, after_pure]
  · exact after_nodeAround (by simp) (argList expr) hlook hfreshLook
  · exact after_nodeAround (by simp) memberName hlook hfreshLook

instance : Recorded (wordExpr expr) where
  keeps base outer s h := by
    have : Recorded wordKind := by
      unfold wordKind
      refine .seq inferInstance fun _ => .seq inferInstance fun k => ?_
      split <;> infer_instance
    have : Recorded (Parser.nodeOf wordKind) := by
      refine .nodeOf _ fun s => ?_
      rw [wordKind, answer_bind, answer_bind]
      split <;> simp
    have hword := this.keeps h
    rw [wordExpr, after_bind, after_ite]
    split
    · exact hword
    · exact after_wordTail expr hword (Record.fresh_complete _ _)

instance (kind : Kind) : Recorded (primaryAt expr kind) := by
  have hmember : Recorded (Parser.node .memberExpr memberName) := .node (by simp) _
  have hliteral {k : Kind} (hk : k ≠ .tombstone) : Recorded (literalExpr k) := by
    have := node hk (advance .expr)
    unfold literalExpr
    infer_instance
  unfold primaryAt
  split
  case h_1 | h_2 | h_3 | h_4 | h_5 => exact hliteral (by simp)
  all_goals infer_instance

instance : Recorded (primaryExpr expr) := by
  unfold primaryExpr
  infer_instance

end

end Recorded

/-! ### Nodes that are completed last -/

namespace Completes

instance {α : Type} (k : Kind) (p : Parser α) (found : Option Kind) :
    Completes (node k p >>= fun _ => pure found) :=
  ⟨fun _ _ => Record.fresh_complete _ _⟩

instance (k : Kind) : Completes (literalExpr k) := by
  unfold literalExpr
  infer_instance

instance {α : Type} (p : Parser α) : Completes (p >>= fun _ => pure none) :=
  ⟨fun _ h => by simp at h⟩

instance : Completes tooDeep := by
  unfold tooDeep
  infer_instance

section
variable (expr : Parser (Option Kind))

lemma fresh_wordExpr (s : ParserState) : ((wordExpr expr).after s).record.Fresh := by
  rw [wordExpr, after_bind, after_ite]
  split
  · exact Record.fresh_complete _ _
  · rw [wordTail, after_bind, after_ite]
    split <;> rw [after_bind, after_pure] <;> exact Recorded.fresh_nodeAround _ _ _

instance (kind : Kind) : Completes (primaryAt expr kind) := by
  unfold primaryAt parens variableExpr
  split
  case h_9 => exact ⟨fun s _ => fresh_wordExpr expr s⟩
  all_goals infer_instance

instance : Completes (primaryExpr expr) :=
  ⟨fun _ h => Completes.fresh (p := primaryAt expr _) h⟩

end

end Completes

/-! ### Operators -/

section
variable {base : List (List Tree)} {outer : List (Nat × Bool × Level)}

/-- An operator is put around the operand in front of it, and stands in front of the next one. -/
lemma after_operatorStep (tighter : Nat → Parser (Option Kind)) [∀ n, Recorded (tighter n)]
    (floor : Nat) (whole : Kind) ⦃s : ParserState⦄ (h : s.Disciplined base outer ∧ s.record.Fresh) :
    ((operatorStep tighter floor whole).after s).Disciplined base outer ∧
      ((operatorStep tighter floor whole).after s).record.Fresh := by
  have hlook : ((peekKind .expr).after s).Disciplined base outer := h.1
  have hfresh : ((peekKind .expr).after s).record.Fresh := h.2
  rw [operatorStep, after_bind]
  generalize (peekKind .expr).after s = u at hlook hfresh
  split
  · exact ⟨hlook, hfresh⟩
  · rw [after_ite]
    split
    · exact ⟨hlook, hfresh⟩
    · rw [after_bind, after_pure]
      exact ⟨Recorded.after_nodeAround (by simp) _ hlook hfresh, Recorded.fresh_nodeAround _ _ _⟩

lemma after_operators (tighter : Nat → Parser (Option Kind)) [∀ n, Recorded (tighter n)]
    (floor : Nat) (first : Kind) {s : ParserState} (h : s.Disciplined base outer ∧ s.record.Fresh) :
    ((operators tighter floor first).after s).Disciplined base outer ∧
      ((operators tighter floor first).after s).record.Fresh :=
  Recorded.after_loop (I := fun s => s.Disciplined base outer ∧ s.record.Fresh)
    (fun whole _ hs => after_operatorStep tighter floor whole hs) first h

end

section
variable (operand : Parser (Option Kind)) [hrecorded : Recorded operand]
  [hcompletes : Completes operand]

/-- An operand is completed before the first operator is looked for, and put in a node with it. -/
lemma recorded_climb (tiers floor : Nat) : Recorded (climb operand tiers floor) := by
  induction tiers generalizing floor with
  | zero => exact hrecorded
  | succ tiers ih =>
    refine ⟨fun base outer s h => ?_⟩
    have hfirst := hrecorded.keeps h
    rw [climb, after_bind]
    split
    · exact hfirst
    · next first hsome =>
      exact (after_operators _ floor first ⟨hfirst, hcompletes.fresh (by simp [hsome])⟩).1

instance : Recorded (exprOf operand) := recorded_climb operand _ _

end

/-- **An operand that is found is completed last**, however deep it is nested. -/
lemma recorded_operand (levels : Nat) : Recorded (operand levels) ∧ Completes (operand levels) := by
  induction levels with
  | zero => exact ⟨inferInstanceAs (Recorded tooDeep), inferInstanceAs (Completes tooDeep)⟩
  | succ levels ih =>
    obtain ⟨hrecorded, hcompletes⟩ := ih
    have : Recorded
        (node .unaryExpr (advance .expr >>= fun _ => operand levels >>= fun _ => pure ())) :=
      .node (by simp) _
    constructor
    · unfold operand
      infer_instance
    · refine ⟨fun s h => ?_⟩
      rw [operand, answer_bind, answer_ite] at h
      rw [operand, after_bind, after_ite]
      split at h
      · rw [if_pos ‹_›]
        exact Record.fresh_complete _ _
      · rw [if_neg ‹_›]
        exact Completes.fresh h

instance (levels : Nat) : Recorded (operand levels) := (recorded_operand levels).1

instance (levels : Nat) : Completes (operand levels) := (recorded_operand levels).2

instance (levels : Nat) : Recorded (expr levels) := inferInstanceAs (Recorded (exprOf _))

end Parser

end DialogueScript
