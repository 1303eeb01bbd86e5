import DialogueScript.Grammar.Line
import DialogueScript.Proofs.Grammar.Loop

/-!
The rules for recovery, expressions and lines of dialogue depend on nothing but what their scanner
sees, and each of their loops ends by itself.
-/

set_option synthInstance.maxSize 512

namespace DialogueScript

namespace KindSet

lemma ne_of_not_contains {s : KindSet} {k : Kind} (hs : s.contains k = true) {k' : Kind}
    (h : s.contains k' = false) : k' ≠ k := by
  rintro rfl
  simp [hs] at h

lemma not_contains_of_disjoint {s t : KindSet} (h : s.bits &&& t.bits = 0) {k : Kind}
    (hk : s.contains k = true) : t.contains k = false := by
  have := congrArg (Nat.testBit · k.id) h
  simp only [Nat.testBit_and, Nat.zero_testBit] at this
  rw [contains] at hk
  simpa [contains, hk] using this

end KindSet

namespace Parser

open ParserState

/-! ### Recovery -/

section
variable (mode : Mode) (message : String)

instance (recovery : KindSet) : Rule (errorRecover mode message recovery) := by
  unfold errorRecover
  infer_instance

lemma not_eof_of_inLine ⦃s : ParserState⦄ (hg : s.Good) (h : (isInLine mode).answer s = true) :
    s.kindAt mode ≠ .eof := by
  simp [hg] at h
  exact h.2

instance : Rule advanceLine :=
  Rule.repeatWhile .text (fun s hg => by simp [hg]) (not_eof_of_inLine .text)

instance : Rule (skipLine mode) := by
  unfold skipLine
  infer_instance

instance : Rule (errorLine mode message) := by
  unfold errorLine
  infer_instance

instance : Rule eatNewline := by
  unfold eatNewline
  infer_instance

instance : Rule (endOfLine mode) := by
  unfold endOfLine
  infer_instance

lemma ne_of_before {kinds : KindSet} {k : Kind} (hk : kinds.contains k = true) ⦃s : ParserState⦄
    (hg : s.Good) (h : (isBefore mode kinds).answer s = true) : s.kindAt mode ≠ k := by
  rw [hg.answer_isBefore, Bool.not_eq_true'] at h
  exact KindSet.ne_of_not_contains hk h

lemma rule_advanceTo (ends : KindSet) (h : ends.contains .eof = true) : Rule (advanceTo ends) :=
  Rule.repeatWhile .expr (fun s hg => by simp [hg]) (ne_of_before .expr h)

instance : Rule (advanceTo commandEnds) := rule_advanceTo _ (by decide)

instance : Rule (advanceTo interpolationEnds) := rule_advanceTo _ (by decide)

instance : Rule (commandEnd mode) := by
  unfold commandEnd
  infer_instance

instance (recovery : KindSet) : Rule (name recovery) := by
  unfold name
  infer_instance

end

/-! ### Operands -/

/-- What an expression comes to at a token of kind `k`: it takes something, or answers that there is
none, or stops at once at a token that no expression takes. -/
def SettlesAt (k : Kind) (p : Parser (Option Kind)) : Prop :=
  ∀ ⦃s⦄, s.Good → s.kindAt .expr = k → (p.after s).scanner.budget < s.scanner.budget ∨
    p.answer s = none ∨ (exprRecovery.contains k = true ∧ (p.after s).kindAt .expr = k)

def Settles (p : Parser (Option Kind)) : Prop := ∀ k, SettlesAt k p

section
variable {k : Kind} {p : Parser (Option Kind)}

lemma SettlesAt.of_consumes [h : Consumes .expr p] (hk : k ≠ .eof) : SettlesAt k p := by
  rintro s hg rfl
  exact .inl (h.budget_lt hg hk)

lemma SettlesAt.of_none (h : ∀ s, p.answer s = none) : SettlesAt k p :=
  fun _ _ _ => .inr (.inl (h _))

lemma SettlesAt.peekKind {f : Kind → Parser (Option Kind)} (h : SettlesAt k (f k)) :
    SettlesAt k (peekKind .expr >>= f) := by
  rintro s hg rfl
  have := h (hg.look .expr) (kindAt_look s .expr)
  rw [budget_look] at this
  rw [answer_bind, after_bind, hg.answer_peekKind, hg.after_peekKind]
  exact this

end

instance (opened : Nat) : Rule (deepStep opened) := by
  unfold deepStep
  infer_instance

lemma advances_deepStep : Advances (fun _ => Any) deepStep := by
  refine Goes.advances fun opened => Goes.peekKind fun k => ?_
  split
  · next hk => exact .of_consumes .expr (by rintro s rfl; simp [hk])
  · split
    · next hk =>
      simp only [Bool.and_eq_true, decide_eq_true_eq] at hk
      exact .of_consumes .expr (by rintro s rfl; simp [hk.1])
    · split
      · exact goes_done _
      · next hk =>
        have : exprRecovery.contains .eof = true := by decide
        exact .of_consumes .expr (by
          rintro s rfl
          exact KindSet.ne_of_not_contains this (by simpa using hk))

instance : Rule tooDeep := by
  unfold tooDeep
  exact .seq (.inNode (.seq inferInstance fun _ =>
    .seq (Rule.loop inferInstance advances_deepStep _) fun _ => inferInstance))
    fun _ => inferInstance

lemma settles_tooDeep : Settles tooDeep := by
  rintro _ s hg rfl
  obtain ⟨hk, hb⟩ := Good.kindAt_errorOf (good_start hg) .expr .unexpectedToken
    "expression is nested too deeply"
  have hu := Rule.good (error .expr "expression is nested too deeply") (good_start hg)
  rw [← error] at hk hb
  unfold tooDeep
  simp only [after_bind, after_node, after_pure, scanner_complete, kindAt_complete]
  generalize (error .expr "expression is nested too deeply").after s.start = u at hk hb hu
  rw [kindAt_start] at hk
  rw [scanner_start] at hb
  have hlook := hu.look .expr
  cases hc : exprRecovery.contains (s.kindAt .expr)
  · left
    have hne : s.kindAt .expr ≠ .eof := KindSet.ne_of_not_contains (by decide) hc
    refine lt_of_le_of_lt (loop_budget_le (fun a => Rule.reads) hu 0) ?_
    have := Consumes.lt .expr (advance .expr) hlook (by rwa [kindAt_look, hk])
    rw [budget_look, hb] at this
    simp only [deepStep, after_bind, hu.answer_peekKind, hu.after_peekKind, hk, hc]
    split
    · exact this
    · split
      · exact this
      · exact this
  · have hne : s.kindAt .expr ≠ .leftParen := by
      intro h
      rw [h] at hc
      exact absurd hc (by decide)
    refine .inr (.inr ⟨rfl, ?_⟩)
    refine loop_first_done (b := 0) (Q := (·.kindAt .expr = s.kindAt .expr)) ?_ ?_
    · simp [deepStep, hu, hk, hne, hc]
    · simp [deepStep, hu, hk, hne, hc]

section
variable (expr : Parser (Option Kind)) [Rule expr]

instance : Rule variableExpr := by
  unfold variableExpr
  infer_instance

instance : Rule memberName := by
  unfold memberName
  infer_instance

instance : Rule argEnd := by
  unfold argEnd
  infer_instance

instance : Rule (argStep expr) := by
  unfold argStep
  infer_instance

lemma advances_argStep (h : Settles expr) :
    Advances (fun _ => Any) fun _ : Unit => argStep expr := by
  refine Goes.advances fun _ => .of_kinds .expr fun k => .isAt (.isAtAny ?_)
  split
  · exact goes_done _
  · next h1 =>
    have hne : k ≠ .eof := by
      rintro rfl
      exact h1 (by decide)
    refine .isAt ?_
    split
    · exact .of_consumes .expr (by rintro s rfl; exact hne)
    · next h2 =>
      rintro s hg rfl b hb
      have hu := Rule.good expr hg
      simp only [answer_bind, after_bind] at hb ⊢
      -- an argument that is there takes a token, for it does not stop where another can start
      rcases h _ hg rfl with h3 | h3 | ⟨h3, h4⟩
      · refine lt_of_le_of_lt ?_ h3
        split
        · exact le_rfl
        · exact Rule.budget_le argEnd hu
      · simp [h3] at hb
      · have h5 : exprFirst.contains (s.kindAt .expr) = false :=
          KindSet.not_contains_of_disjoint (by decide) h3
        have h6 : s.kindAt .expr ≠ .comma := by simpa using h2
        have hlook := hu.look .expr
        split at hb
        · simp at hb
        · simp [argEnd, hu, hlook, h4, h5, h6, hu.after_eat] at hb

lemma rule_argList (h : Settles expr) : Rule (argList expr) := by
  unfold argList
  exact .inNode
    (.seq inferInstance fun _ => .seq (Rule.loop inferInstance (advances_argStep expr h) _)
    fun _ => inferInstance)

instance : Rule (parens expr) := by
  unfold parens
  infer_instance

instance : Rule wordKind := by
  unfold wordKind
  refine .seq inferInstance fun _ => .seq inferInstance fun k => ?_
  split <;> infer_instance

lemma answer_wordKind (s : ParserState) :
    wordKind.answer s = .name ∨ wordKind.answer s = .identExpr := by
  rw [wordKind, answer_bind, answer_bind]
  split
  · exact .inl rfl
  · exact .inl rfl
  · exact .inr rfl

instance : Consumes .expr wordKind := by
  unfold wordKind
  refine .seq inferInstance inferInstance fun _ => .seq inferInstance fun k => ?_
  split <;> infer_instance

lemma rule_wordExpr (h : Settles expr) : Rule (wordExpr expr) := by
  have := rule_argList expr h
  have : Rule (nodeOf wordKind) := .inNodeOf inferInstance
  unfold wordExpr wordTail
  infer_instance

instance (kind : Kind) : Rule (literalExpr kind) := by
  unfold literalExpr
  infer_instance

lemma rule_primaryExpr (h : Settles expr) : Rule (primaryExpr expr) := by
  have := rule_wordExpr expr h
  unfold primaryExpr
  refine .seq inferInstance fun k => ?_
  unfold primaryAt
  split <;> infer_instance

instance (kind : Kind) : Consumes .expr (literalExpr kind) := by
  unfold literalExpr
  infer_instance

instance : Consumes .expr variableExpr := by
  unfold variableExpr
  infer_instance

instance : Consumes .expr memberName := by
  unfold memberName
  infer_instance

lemma settles_primaryExpr (h : Settles expr) : Settles (primaryExpr expr) := by
  have := rule_argList expr h
  have := rule_wordExpr expr h
  have hword : Consumes .expr (wordExpr expr) := by
    unfold wordExpr wordTail
    exact .seq (.inNodeOf inferInstance) (.inNodeOf inferInstance) fun _ => inferInstance
  intro k
  unfold primaryExpr
  refine .peekKind ?_
  unfold primaryAt parens
  split
  all_goals first
    | exact .of_consumes (by simp)
    | exact .of_none fun _ => rfl

end

/-! ### Operators -/

lemma not_recovery_of_binary {k : Kind} {op : BinaryOp} (h : BinaryOp.ofKind? k = some op) :
    exprRecovery.contains k = false := by
  unfold BinaryOp.ofKind? at h
  split at h
  all_goals first
    | decide
    | simp at h

section
variable (operand : Parser (Option Kind))

lemma rule_operatorStep {tiers : Nat} (h : ∀ floor, Rule (climb operand tiers floor)) (floor : Nat)
    (whole : Kind) : Rule (operatorStep (climb operand tiers) floor whole) := by
  refine .seq inferInstance fun k => ?_
  split <;> infer_instance

lemma advances_operatorStep {tiers : Nat} (h : ∀ floor, Rule (climb operand tiers floor))
    (floor : Nat) : Advances (fun _ => Any) (operatorStep (climb operand tiers) floor) := by
  refine Goes.advances fun _ => .peekKind fun k => ?_
  split
  · exact goes_done _
  · next op hop =>
    have hk := not_recovery_of_binary hop
    refine .ite (goes_done _) (.of_consumes .expr ?_)
    rintro s rfl
    exact KindSet.ne_of_not_contains (by decide) hk

lemma rule_operators {tiers : Nat} (h : ∀ floor, Rule (climb operand tiers floor)) (floor : Nat)
    (first : Kind) : Rule (operators (climb operand tiers) floor first) :=
  .seq (Rule.loop (rule_operatorStep operand h floor) (advances_operatorStep operand h floor) _)
    fun _ => inferInstance

lemma rule_climb [Rule operand] (tiers floor : Nat) : Rule (climb operand tiers floor) := by
  induction tiers generalizing floor with
  | zero => rwa [climb]
  | succ tiers ih =>
    have := rule_operators operand ih
    rw [climb]
    refine .seq inferInstance fun r => ?_
    split <;> infer_instance

/-- At a token that no expression takes, there are no operators. -/
lemma kindAt_operators (tiers floor : Nat) (first : Kind) {s : ParserState} (hg : s.Good)
    (hk : exprRecovery.contains (s.kindAt .expr) = true) :
    ((operators (climb operand tiers) floor first).after s).kindAt .expr = s.kindAt .expr := by
  have hop : BinaryOp.ofKind? (s.kindAt .expr) = none := by
    by_contra h
    obtain ⟨op, hop⟩ := Option.ne_none_iff_exists'.1 h
    simp [not_recovery_of_binary hop] at hk
  rw [operators, after_bind, after_pure]
  refine loop_first_done (b := first) (Q := (·.kindAt .expr = s.kindAt .expr)) ?_ ?_
  · simp [operatorStep, hg, hop]
  · simp [operatorStep, hg, hop]

lemma settles_climb [Rule operand] (h : Settles operand) (tiers floor : Nat) :
    Settles (climb operand tiers floor) := by
  rcases tiers with _ | tiers
  · rwa [climb]
  · have := rule_operators operand (rule_climb operand tiers)
    rintro k s hg hk
    have hu := Rule.good operand hg
    rw [climb, answer_bind, after_bind]
    rcases h k hg hk with h1 | h1 | ⟨h1, h2⟩
    · left
      refine lt_of_le_of_lt ?_ h1
      split
      · exact le_rfl
      · exact Rule.budget_le (operators (climb operand tiers) floor _) hu
    · right; left
      rw [h1]
      rfl
    · refine .inr (.inr ⟨h1, ?_⟩)
      split
      · exact h2
      · rw [kindAt_operators operand tiers floor _ hu (by rwa [h2]), h2]

instance [Rule operand] : Rule (exprOf operand) := rule_climb operand _ _

end

lemma rule_operand (levels : Nat) : Rule (operand levels) ∧ Settles (operand levels) := by
  induction levels with
  | zero => exact ⟨inferInstanceAs (Rule tooDeep), settles_tooDeep⟩
  | succ levels ih =>
    have := ih.1
    have hs : Settles (exprOf (operand levels)) := settles_climb _ ih.2 _ _
    have := rule_primaryExpr _ hs
    refine ⟨?_, fun k => ?_⟩
    · rw [operand]
      infer_instance
    · rw [operand]
      refine .peekKind ?_
      split
      · next hk => exact .of_consumes (by rintro rfl; simp [UnaryOp.ofKind?] at hk)
      · exact settles_primaryExpr _ hs k

instance (levels : Nat) : Rule (operand levels) := (rule_operand levels).1

instance (levels : Nat) : Rule (expr levels) := by
  unfold expr
  infer_instance

/-! ### Lines -/

instance : Rule interpolationEnd := by
  unfold interpolationEnd
  infer_instance

instance (levels : Nat) (mode : Mode) : Rule (interpolation levels mode) := by
  unfold interpolation
  infer_instance

instance (levels : Nat) (mode : Mode) : Consumes mode (interpolation levels mode) := by
  unfold interpolation
  infer_instance

instance (levels : Nat) (first : Mode) (found : Bool) : Rule (textStep levels first found) := by
  unfold textStep
  refine .seq inferInstance fun k => ?_
  split <;> infer_instance

lemma advances_textStep (levels : Nat) (first : Mode) :
    Advances (fun _ => Any) (textStep levels first) := by
  refine Goes.advances fun found => .peekKind fun k => ?_
  generalize (if found = true then Mode.text else first) = mode
  split
  · exact .of_consumes mode (by rintro s h; simp [h])
  · exact .of_consumes mode (by rintro s h; simp [h])
  · exact .of_consumes mode (by rintro s h; simp [h])
  · exact .of_consumes mode (by rintro s h; simp [h])
  · exact goes_done _

instance (levels : Nat) (first : Mode) : Rule (lineText levels first) := by
  unfold lineText
  exact .inNodeIf (Rule.loop inferInstance (advances_textStep levels first) _)

instance (levels : Nat) : Rule (conditionRest levels) := by
  unfold conditionRest
  infer_instance

instance (levels : Nat) : Rule (lineCondition levels) := by
  unfold lineCondition
  infer_instance

instance : Rule hashtag := by
  unfold hashtag
  infer_instance

instance : Consumes .text hashtag := by
  unfold hashtag
  infer_instance

instance : Rule hashtags :=
  Rule.repeatWhile .text (fun s hg => by simp [hg]) fun s hg hc => by
    have hk : s.kindAt .text = .hash := by simpa [hg] using hc
    simp [hk]

instance (levels : Nat) : Rule (lineRest levels) := by
  unfold lineRest
  refine .seq inferInstance fun _ => ?_
  dsimp only
  split
  · refine .seq inferInstance fun command => ?_
    split <;> infer_instance
  · infer_instance

instance (levels : Nat) (first : Mode) : Rule (line levels first) := by
  rw [line]
  dsimp only
  infer_instance

end Parser

end DialogueScript
