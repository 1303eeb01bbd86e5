import DialogueScript.Proofs.Grammar.Script
import DialogueScript.Proofs.Scanner.Keywords

/-!
Rules that stay on their line. Where the line in view ends with a break, such a rule does not look
behind the break, and a rule that ends the line leaves the next one untouched.
-/

set_option synthInstance.maxSize 512

namespace DialogueScript

lemma Text.lineTail_of_blank {t : Text} (h : Text.dropBlanks t = []) : Text.lineTail t = 0 := by
  rw [Text.lineTail, List.length_eq_zero_iff, List.dropWhile_eq_nil_iff]
  intro c hc
  have hblank : isBlank c = true := List.dropWhile_eq_nil_iff.1 h c hc
  rw [Bool.not_eq_true']
  by_contra hbreak
  rw [Bool.not_eq_false] at hbreak
  simp [not_isBlank_of_break c hbreak] at hblank

namespace Scanner

/-- The line in view ends with a break. -/
def OnLine (s : Scanner) : Prop := 0 < s.beyond

/-- Nothing of the current line has been looked at. -/
def Untouched (s : Scanner) : Prop := s.isFresh = true

section
variable {s : Scanner}

lemma OnLine.settle (h : s.OnLine) (mode : Mode) : (s.settle mode).OnLine := by
  cases hm : mode.isIndentSensitive
  · rwa [settle_of_insensitive s hm]
  · rw [OnLine, beyond] at h
    rw [settle_of_sensitive s hm, OnLine, beyond]
    cases hs : s.lineStart
    · rw [hs, if_neg (by simp)] at h
      have hend : s.atUnterminatedEnd = false := by
        by_contra hend
        simp only [atUnterminatedEnd, Bool.and_eq_true, List.isEmpty_iff, Bool.not_eq_false] at hend
        rw [Text.lineTail_of_blank hend.2] at h
        exact absurd h (lt_irrefl 0)
      simpa [hend] using h
    · simpa [hs] using h

lemma OnLine.looking (h : s.OnLine) (mode : Mode) : (s.looking mode).OnLine := h.settle mode

lemma OnLine.after (hg : s.Good) (h : s.OnLine) {mode : Mode}
    (hk : (s.ahead mode).token.kind ≠ .newline) : (s.after mode).OnLine := by
  have hsettle := h.settle mode
  rcases (hg.takes mode).view (hg.settle mode) with ⟨-, -, hbeyond⟩ | ⟨hk', -⟩
  · rwa [OnLine, hbeyond]
  · exact absurd hk' hk

lemma OnLine.ne_eof (hg : s.Good) (h : s.OnLine) (mode : Mode) :
    (s.ahead mode).token.kind ≠ .eof := by
  intro hk
  have hsettle := h.settle mode
  have hbody := ((hg.takes mode).of_eof hk).2.2
  rw [OnLine, ← lineTail_body _ mode, hbody, Text.lineTail_nil] at hsettle
  exact lt_irrefl 0 hsettle

lemma untouched_after (hg : s.Good) {mode : Mode} (hk : (s.ahead mode).token.kind = .newline) :
    (s.after mode).Untouched := by
  rcases (hg.takes mode).view (hg.settle mode) with ⟨hk', -⟩ | ⟨-, hfresh, -⟩
  · exact absurd hk hk'
  · exact hfresh

lemma OnLine.unseen_pos (h : s.OnLine) : 0 < s.unseen := lt_of_lt_of_le h s.beyond_le_unseen

lemma Untouched.unseen_pos (h : s.Untouched) : 0 < s.unseen := by
  rw [Untouched] at h
  simp [unseen, h]

/-- No line break stands next in a mode. -/
def NoBreak (mode : Mode) (s : Scanner) : Prop := (s.ahead mode).token.kind ≠ .newline

/-- A command with a keyword stands next. -/
def AtKeyword (s : Scanner) : Prop := s.commandAhead .statement ≠ none

/-- No condition. -/
def Anywhere : Scanner → Prop := fun _ => True

end

end Scanner

namespace Parser

open ParserState
open Scanner (OnLine Untouched NoBreak AtKeyword Anywhere)

variable {α β σ : Type} {P Q : Scanner → Prop}

/-- On a line that ends with a break, and under the condition `P`, a rule leads to `Q`. -/
class Leads (P Q : Scanner → Prop) (p : Parser α) : Prop where
  leads : ∀ ⦃s⦄, s.Good → s.scanner.OnLine → P s.scanner → Q (p.after s).scanner

lemma Leads.after (p : Parser α) [h : Leads Anywhere Q p] {s : ParserState} (hg : s.Good)
    (hs : s.scanner.OnLine) : Q (p.after s).scanner :=
  h.leads hg hs trivial

lemma Leads.any {p : Parser α} (h : Leads Anywhere Q p) : Leads P Q p :=
  ⟨fun _ hg hs _ => h.leads hg hs trivial⟩

/-! ### Sequences and nodes -/

instance (a : α) : Leads P OnLine (pure a : Parser α) := ⟨fun _ _ hs _ => hs⟩

instance Leads.bind (p : Parser α) (f : α → Parser β) [Rule p] [hp : Leads P OnLine p]
    [hf : ∀ a, Leads Anywhere Q (f a)] : Leads P Q (p >>= f) where
  leads _ hg hs hP := (hf _).leads (Rule.good p hg) (hp.leads hg hs hP) trivial

lemma Leads.seq {p : Parser α} {f : α → Parser β} (hr : Rule p) (hp : Leads P OnLine p)
    (hf : ∀ a, Leads Anywhere Q (f a)) : Leads P Q (p >>= f) :=
  inferInstance

instance Leads.ite {c : Prop} [Decidable c] (p q : Parser α) [hp : Leads P Q p] [hq : Leads P Q q] :
    Leads P Q (if c then p else q) := by
  split
  · exact hp
  · exact hq

lemma Leads.ite' {c : Prop} [Decidable c] {p q : Parser α} (hp : Leads P Q p) (hq : Leads P Q q) :
    Leads P Q (if c then p else q) :=
  inferInstance

instance (k : Kind) (p : Parser α) [hp : Leads P Q p] : Leads P Q (node k p) where
  leads _ hg hs hP := hp.leads (good_start hg) hs hP

/-- One of two rules, and what follows either. -/
lemma Leads.optional {c : Prop} [Decidable c] {p q : Parser α} {f : α → Parser β} [Rule p] [Rule q]
    (hp : Leads P OnLine p) (hq : Leads P OnLine q) (hf : ∀ a, Leads Anywhere Q (f a)) :
    Leads P Q (if c then p >>= f else q >>= f) :=
  inferInstance

lemma Leads.inNode {k : Kind} {p : Parser α} (hp : Leads P Q p) : Leads P Q (node k p) :=
  inferInstance

instance (p : Parser Kind) [hp : Leads P Q p] : Leads P Q (nodeOf p) where
  leads _ hg hs hP := hp.leads (good_start hg) hs hP

instance (k : Kind) (p : Parser Unit) [hp : Leads P Q p] : Leads P Q (nodeAround k p) where
  leads _ hg hs hP := hp.leads (good_precede hg) hs hP

lemma Leads.inNodeIf {k : Kind} {p : Parser Bool} (hp : Leads P Q p) : Leads P Q (nodeIf k p) where
  leads s hg hs hP := by
    have := hp.leads (good_start hg) hs hP
    unfold Parser.after
    rw [run_nodeIf]
    dsimp only
    split <;> exact this

lemma Leads.loop {step : σ → Parser (ForInStep σ)} (hr : ∀ a, Rule (step a))
    (h : ∀ a, Leads Anywhere OnLine (step a)) (a : σ) : Leads P OnLine (loop step a) := by
  have hloop : ∀ n a, Reading (loopUpTo step n a) ∧ Leads Anywhere OnLine (loopUpTo step n a) := by
    intro n
    induction n with
    | zero => exact fun a => ⟨Reading.loopUpTo (fun a => (hr a).reads) 0 a, ⟨fun _ _ hs _ => hs⟩⟩
    | succ n ih =>
      intro a
      refine ⟨Reading.loopUpTo (fun a => (hr a).reads) _ a, ⟨fun s hg hs _ => ?_⟩⟩
      have hgood := Rule.good (step a) hg
      have hstep := (h a).leads hg hs trivial
      unfold Parser.after
      rcases hb : (step a).answer s with b | b
      · rw [run_loopUpTo_done hb]
        exact hstep
      · rw [run_loopUpTo_yield hb]
        exact (ih b).2.leads hgood hstep trivial
  exact ⟨fun s hg hs _ => (hloop (s.scanner.budget + 1) a).2.leads hg hs trivial⟩

/-! ### Tokens and errors -/

section
variable (mode : Mode)

instance : Leads P OnLine (peekKind mode) where
  leads s hg hs _ := by
    rw [hg.after_peekKind]
    exact hs.looking mode

instance : Leads P OnLine (peekCommand mode) where
  leads s hg hs _ := by
    rw [hg.after_peekCommand]
    exact hs.looking mode

instance (kind : Kind) : Leads P OnLine (isAt mode kind) := by
  unfold isAt
  infer_instance

instance (kinds : KindSet) : Leads P OnLine (isAtAny mode kinds) := by
  unfold isAtAny
  infer_instance

instance : Leads P OnLine (isAtLineEnd mode) := by
  unfold isAtLineEnd
  infer_instance

instance : Leads P OnLine (isInLine mode) := by
  unfold isInLine
  infer_instance

instance (kinds : KindSet) : Leads P OnLine (isBefore mode kinds) := by
  unfold isBefore
  infer_instance

instance (e : GrammarError) (m : String) : Leads P OnLine (errorOf mode e m) where
  leads s hg hs _ := by
    rw [(Good.errorOf_keeps hg mode e m).1]
    exact hs.looking mode

instance (m : String) : Leads P OnLine (error mode m) := by
  unfold error
  infer_instance

/-- A token that is no line break is taken on the line. -/
instance : Leads (NoBreak mode) OnLine (advance mode) where
  leads s hg hs hP := by
    have hne : s.kindAt mode ≠ .eof := hs.ne_eof hg.scanner mode
    rw [hg.after_advance, if_neg hne]
    exact hs.after hg.scanner hP

end

section
variable {mode : Mode} {kind : Kind}

/-- At a token that is no line break, it is known that it is none. -/
lemma Leads.peekKind {f : Kind → Parser β} (hn : Leads Anywhere Q (f .newline))
    (h : ∀ k, k ≠ .newline → Leads (NoBreak mode) Q (f k)) : Leads P Q (peekKind mode >>= f) where
  leads s hg hs _ := by
    have hlook := hg.look mode
    have hline : (s.look mode).scanner.OnLine := hs.looking mode
    rw [after_bind, hg.answer_peekKind, hg.after_peekKind]
    by_cases hk : s.kindAt mode = .newline
    · rw [hk]
      exact hn.leads hlook hline trivial
    · exact (h _ hk).leads hlook hline (by rw [NoBreak, ← kindAt, kindAt_look]; exact hk)

lemma Leads.isAt {f : Bool → Parser β} (hkind : kind ≠ .newline)
    (ht : Leads (NoBreak mode) Q (f true)) (hf : Leads Anywhere Q (f false)) :
    Leads P Q (isAt mode kind >>= f) where
  leads s hg hs _ := by
    have hlook := hg.look mode
    have hline : (s.look mode).scanner.OnLine := hs.looking mode
    rw [after_bind, hg.answer_isAt, hg.after_isAt]
    by_cases hk : s.kindAt mode = kind
    · rw [decide_eq_true hk]
      exact ht.leads hlook hline (by rw [NoBreak, ← kindAt, kindAt_look, hk]; exact hkind)
    · rw [decide_eq_false hk]
      exact hf.leads hlook hline trivial

lemma Leads.isAtLineEnd {f : Bool → Parser β} (ht : Leads Anywhere Q (f true))
    (hf : Leads (NoBreak mode) Q (f false)) : Leads P Q (isAtLineEnd mode >>= f) where
  leads s hg hs _ := by
    have hlook := hg.look mode
    have hline : (s.look mode).scanner.OnLine := hs.looking mode
    rw [after_bind, hg.answer_isAtLineEnd, hg.after_isAtLineEnd]
    cases hk : decide (s.kindAt mode = .newline) || decide (s.kindAt mode = .eof)
    · simp only [Bool.or_eq_false_iff, decide_eq_false_iff_not] at hk
      exact hf.leads hlook hline (by rw [NoBreak, ← kindAt, kindAt_look]; exact hk.1)
    · exact ht.leads hlook hline trivial

/-- Looking at the token that stands next changes nothing of what is known about it. -/
lemma NoBreak.look {s : ParserState} (h : NoBreak mode s.scanner) :
    NoBreak mode (s.look mode).scanner := by
  rwa [NoBreak, ← kindAt, kindAt_look]

instance Leads.bindError (e : GrammarError) (m : String) (f : Unit → Parser β)
    [hf : Leads (NoBreak mode) Q (f ())] : Leads (NoBreak mode) Q (errorOf mode e m >>= f) where
  leads s hg hs hP := by
    rw [after_bind]
    refine hf.leads (Rule.good (errorOf mode e m) hg) (Leads.after (errorOf mode e m) hg hs) ?_
    rw [(Good.errorOf_keeps hg mode e m).1]
    exact NoBreak.look hP

lemma Leads.keepIsAt {f : Bool → Parser β} (h : ∀ b, Leads (NoBreak mode) Q (f b)) :
    Leads (NoBreak mode) Q (Parser.isAt mode kind >>= f) where
  leads s hg hs hP := by
    rw [after_bind, hg.after_isAt]
    exact (h _).leads (hg.look mode) (hs.looking mode) (NoBreak.look hP)

lemma Leads.keepCommand {f : Option Kind → Parser β} (h : ∀ c, Leads (NoBreak mode) Q (f c)) :
    Leads (NoBreak mode) Q (peekCommand mode >>= f) where
  leads s hg hs hP := by
    rw [after_bind, hg.after_peekCommand]
    exact (h _).leads (hg.look mode) (hs.looking mode) (NoBreak.look hP)

/-- An error may be reported at a token that was looked at earlier. -/
lemma Leads.ranged {p : Parser α} (hp : Leads Anywhere OnLine p)
    (problem : α → Option (GrammarError × String)) :
    Leads P OnLine (peekRange mode >>= fun r => p >>= fun a => reportAt r (problem a) >>= fun _ =>
      pure a) where
  leads s hg hs _ := by
    have hline := hp.leads (hg.look mode) (hs.looking mode) trivial
    simp only [after_bind, hg.answer_peekRange, hg.after_peekRange, after_pure]
    rcases problem (p.answer (s.look mode)) with _ | ⟨e, m⟩
    · exact hline
    · rw [reportAt, after_errorAt, scanner_report]
      exact hline

lemma Leads.eat (hkind : kind ≠ .newline) : Leads P OnLine (eat mode kind) :=
  .isAt hkind
    (by simpa using inferInstanceAs (Leads _ OnLine (advance mode >>= fun _ => pure true)))
    (by simpa using inferInstanceAs (Leads _ OnLine (pure false)))

lemma Leads.expect (hkind : kind ≠ .newline) (m : String) :
    Leads P OnLine (expect mode kind m) := by
  have : Leads P OnLine (Parser.eat mode kind) := .eat hkind
  unfold Parser.expect
  infer_instance

end

lemma Leads.repeatWhile {condition : Parser Bool} {rule : Parser Unit} (mode : Mode)
    [Rule condition] [Rule rule] [hr : Leads (NoBreak mode) OnLine rule]
    (hlook : ∀ ⦃s⦄, s.Good → condition.after s = s.look mode)
    (h : ∀ ⦃s⦄, s.Good → condition.answer s = true → s.kindAt mode ≠ .newline) :
    Leads P OnLine (repeatWhile condition rule) := by
  refine .loop inferInstance (fun _ => ⟨fun s hg hs _ => ?_⟩) ()
  have hline : (s.look mode).scanner.OnLine := hs.looking mode
  rw [whileStep, after_bind, hlook hg]
  split
  · next hc =>
    refine hr.leads (hg.look mode) hline ?_
    rw [NoBreak, ← kindAt, kindAt_look]
    exact h hg hc
  · exact hline

/-! ### Recovery -/

section
variable (mode : Mode) (message : String)

instance (recovery : KindSet) : Leads P OnLine (errorRecover mode message recovery) := by
  unfold errorRecover
  refine .seq inferInstance inferInstance fun _ => .seq inferInstance inferInstance fun found =>
    .isAtLineEnd ?_ inferInstance
  simp only [Bool.not_true, Bool.and_false, Bool.false_eq_true, if_false]
  infer_instance

instance : Leads P OnLine advanceLine :=
  .repeatWhile .text (fun s hg => by simp [hg]) fun s hg hc => by
    simp [hg] at hc
    exact hc.1

instance : Leads P OnLine (skipLine mode) := by
  unfold skipLine
  refine .isAtLineEnd ?_ inferInstance
  simp only [Bool.not_true, Bool.false_eq_true, if_false]
  infer_instance

instance : Leads P OnLine (errorLine mode message) := by
  unfold errorLine
  infer_instance

/-- The break of a line is taken where the text of the line ends. -/
lemma untouched_eatNewline {s : ParserState} (hg : s.Good) (hs : s.scanner.OnLine)
    (hk : s.kindAt .text = .newline ∨ s.kindAt .text = .eof) :
    (eatNewline.after s).scanner.Untouched := by
  have hnewline : s.kindAt .text = .newline := hk.resolve_right (hs.ne_eof hg.scanner .text)
  rw [after_eatNewline hg, if_pos hnewline]
  exact Scanner.untouched_after hg.scanner hnewline

lemma untouched_skipLine {s : ParserState} (hg : s.Good) (hs : s.scanner.OnLine)
    (h : mode = .text ∨ s.kindAt mode ≠ .newline) :
    (eatNewline.after ((skipLine mode).after s)).scanner.Untouched := by
  have hne : s.kindAt mode ≠ .eof := hs.ne_eof hg.scanner mode
  have hline : ((skipLine mode).after s).scanner.OnLine := Leads.after (skipLine mode) hg hs
  refine untouched_eatNewline (Rule.good (skipLine mode) hg) hline ?_
  have hlook := hg.look mode
  simp only [skipLine, after_bind, hg.answer_isAtLineEnd, hg.after_isAtLineEnd, after_ite,
    after_pure, after_node, hne, decide_false, Bool.or_false]
  by_cases hk : s.kindAt mode = .newline
  · obtain rfl := h.resolve_right (not_not.2 hk)
    simp [hk]
  · simp only [hk, decide_false, Bool.not_false, if_true, kindAt_complete]
    exact kindAt_advanceLine (Rule.good (advance mode) (good_start hlook))

instance : Leads (NoBreak mode) Untouched (skipLine mode >>= fun _ => eatNewline) where
  leads s hg hs hP := by
    rw [after_bind]
    exact untouched_skipLine mode hg hs (.inr hP)

instance : Leads P Untouched (skipLine .text >>= fun _ => eatNewline) where
  leads s hg hs _ := by
    rw [after_bind]
    exact untouched_skipLine .text hg hs (.inl rfl)

instance : Leads (NoBreak mode) Untouched (errorLine mode message >>= fun _ => eatNewline) where
  leads s hg hs hP := by
    have hk := (Good.kindAt_errorOf hg mode .unexpectedToken message).1
    rw [after_bind, errorLine, after_bind]
    refine untouched_skipLine mode (Rule.good (error mode message) hg) ?_ (.inr ?_)
    · exact Leads.after (error mode message) hg hs
    · rw [error, hk]
      exact hP

instance : Leads P Untouched (endOfLine mode) where
  leads s hg hs _ := by
    have hlook := hg.look mode
    have hne : s.kindAt mode ≠ .eof := hs.ne_eof hg.scanner mode
    have hline : (s.look mode).scanner.OnLine := hs.looking mode
    simp only [endOfLine, after_bind, hg.answer_isAt, hg.after_isAt, after_ite, after_pure,
      hlook.answer_eat, hlook.after_eat mode (show Kind.newline ≠ .eof by simp), kindAt_look,
      decide_eq_true_eq, take_look, look_look, if_neg hne]
    by_cases hk : s.kindAt mode = .newline
    · rw [if_pos hk, if_pos hk]
      exact Scanner.untouched_after hg.scanner hk
    · rw [if_neg hk, if_neg hk]
      have hbreak : NoBreak mode (s.look mode).scanner := by
        rw [NoBreak, ← kindAt, kindAt_look]
        exact hk
      have hfresh := Leads.leads (P := NoBreak mode) (Q := Untouched)
        (p := errorLine mode "expected end of line" >>= fun _ => eatNewline) hlook hline hbreak
      rwa [after_bind] at hfresh

/-- Tokens of an expression up to one of some kinds. -/
lemma leads_advanceTo (ends : KindSet) (h : ends.contains .newline = true) :
    Leads P OnLine (advanceTo ends) :=
  .repeatWhile .expr (fun s hg => by simp [hg]) (ne_of_before .expr h)

instance : Leads P OnLine (commandEnd mode) := by
  have := leads_advanceTo (P := Anywhere) commandEnds (by decide)
  have : Leads P OnLine (eat mode .commandEnd) := .eat (by simp)
  have : Leads Anywhere OnLine (eat .expr .commandEnd) := .eat (by simp)
  unfold commandEnd
  infer_instance

instance (recovery : KindSet) : Leads P OnLine (name recovery) := by
  unfold name
  refine .isAt (by simp) ?_ ?_
  · simp only [if_true]
    infer_instance
  · simp only [Bool.false_eq_true, if_false]
    infer_instance

end

/-! ### Expressions -/

instance (opened : Nat) : Leads P OnLine (deepStep opened) := by
  refine .peekKind ?_ fun k _ => inferInstance
  rw [if_neg (by simp), if_neg (by simp), if_pos (by decide)]
  infer_instance

instance : Leads P OnLine tooDeep := by
  have hloop : Rule (loop deepStep 0) := Rule.loop inferInstance advances_deepStep 0
  have : Leads Anywhere OnLine (loop deepStep 0) := .loop inferInstance inferInstance 0
  unfold tooDeep
  infer_instance

instance : Leads (NoBreak .expr) OnLine variableExpr := by
  have : Leads Anywhere OnLine (expect .name .ident "expected a variable name") :=
    .expect (by simp) _
  unfold variableExpr
  infer_instance

instance : Leads (NoBreak .expr) OnLine memberName := by
  unfold memberName
  infer_instance

instance (kind : Kind) : Leads (NoBreak .expr) OnLine (literalExpr kind) := by
  unfold literalExpr
  infer_instance

section
variable (expr : Parser (Option Kind)) [Rule expr] [hexpr : Leads Anywhere OnLine expr]

instance : Leads P OnLine (argStep expr) := by
  have : Leads Anywhere OnLine (eat .expr .comma) := .eat (by simp)
  have : Leads Anywhere OnLine (expect .expr .comma "expected `,`") := .expect (by simp) _
  unfold argStep argEnd
  refine .seq inferInstance inferInstance fun a => .seq inferInstance inferInstance fun b => ?_
  refine .ite' inferInstance (.isAt (by simp) ?_ ?_)
  · rw [if_pos rfl, error]
    infer_instance
  · rw [if_neg (by simp)]
    infer_instance

lemma leads_argList (h : Settles expr) : Leads (NoBreak .expr) OnLine (argList expr) := by
  have : Rule (loop (fun _ => argStep expr) ()) :=
    Rule.loop inferInstance (advances_argStep expr h) ()
  have : Leads Anywhere OnLine (loop (fun _ => argStep expr) ()) :=
    .loop inferInstance inferInstance ()
  have : Leads Anywhere OnLine (expect .expr .rightParen "expected `)`") := .expect (by simp) _
  unfold argList
  infer_instance

lemma leads_wordExpr (h : Settles expr) : Leads (NoBreak .expr) OnLine (wordExpr expr) where
  leads s hg hs hP := by
    have := leads_argList expr h
    have := rule_argList expr h
    have htail : Leads (NoBreak .expr) OnLine (wordTail expr) := .keepIsAt fun _ => inferInstance
    have hu := Rule.good (advance .expr) (good_start hg)
    have hline : ((advance .expr).after s.start).scanner.OnLine :=
      Leads.leads (P := NoBreak .expr) (good_start hg) hs hP
    unfold wordExpr wordKind
    simp only [after_bind, answer_nodeOf, after_nodeOf, answer_bind, hu.answer_peekKind,
      hu.after_peekKind]
    generalize (advance .expr).after s.start = u at *
    have hlook := hu.look .expr
    -- a word at the end of its line is a plain name
    by_cases hk : u.kindAt .expr = .newline
    · rw [hk]
      exact hline.looking .expr
    · have hbreak : NoBreak .expr (u.look .expr).scanner := by
        rw [NoBreak, ← kindAt, kindAt_look]
        exact hk
      split <;>
        exact (Leads.ite' inferInstance htail).leads (P := NoBreak .expr)
          (good_complete hlook _) (hline.looking .expr) hbreak

lemma leads_primaryExpr (h : Settles expr) : Leads P OnLine (primaryExpr expr) := by
  have := rule_wordExpr expr h
  have := leads_wordExpr expr h
  have : Leads Anywhere OnLine (expect .expr .rightParen "expected `)`") := .expect (by simp) _
  unfold primaryExpr primaryAt parens
  refine .peekKind inferInstance fun k _ => ?_
  split <;> infer_instance

end

section
variable (operand : Parser (Option Kind)) [Rule operand]

lemma leads_operators {tiers : Nat} (h : ∀ floor, Leads Anywhere OnLine (climb operand tiers floor))
    (floor : Nat) (first : Kind) :
    Leads P OnLine (operators (climb operand tiers) floor first) := by
  have hrule := rule_climb operand tiers
  have hstep : ∀ whole, Leads Anywhere OnLine (operatorStep (climb operand tiers) floor whole) := by
    refine fun whole => .peekKind ?_ fun k _ => ?_
    · exact inferInstanceAs (Leads _ _ (pure (ForInStep.done whole)))
    · split <;> infer_instance
  exact .seq (Rule.loop (rule_operatorStep operand hrule floor)
    (advances_operatorStep operand hrule floor) _)
    (.loop (rule_operatorStep operand hrule floor) hstep _) fun _ => inferInstance

lemma leads_climb [Leads Anywhere OnLine operand] (tiers floor : Nat) :
    Leads Anywhere OnLine (climb operand tiers floor) := by
  induction tiers generalizing floor with
  | zero => rwa [climb]
  | succ tiers ih =>
    have := fun first => leads_operators (P := Anywhere) operand ih floor first
    rw [climb]
    refine .seq inferInstance inferInstance fun r => ?_
    split <;> infer_instance

end

lemma leads_operand (levels : Nat) : Leads Anywhere OnLine (operand levels) := by
  induction levels with
  | zero => exact inferInstanceAs (Leads Anywhere OnLine tooDeep)
  | succ levels ih =>
    have hs : Settles (exprOf (operand levels)) := settles_climb _ (rule_operand levels).2 _ _
    have : Leads Anywhere OnLine (exprOf (operand levels)) := leads_climb _ _ _
    have hprimary := fun P => leads_primaryExpr (P := P) _ hs
    rw [operand]
    exact .peekKind (hprimary _) fun k _ => .ite' inferInstance (hprimary _)

instance (levels : Nat) : Leads P OnLine (expr levels) := by
  have := leads_operand levels
  exact .any (leads_climb _ _ _)

/-! ### Lines -/

section
variable (levels : Nat)

instance (mode : Mode) : Leads (NoBreak mode) OnLine (interpolation levels mode) := by
  have := leads_advanceTo (P := Anywhere) interpolationEnds (by decide)
  have : Leads Anywhere OnLine (eat .expr .rightBrace) := .eat (by simp)
  unfold interpolation interpolationEnd
  infer_instance

instance (first : Mode) (found : Bool) : Leads P OnLine (textStep levels first found) := by
  unfold textStep
  refine .peekKind inferInstance fun k _ => ?_
  generalize (if found = true then Mode.text else first) = mode
  split <;> infer_instance

instance (first : Mode) : Leads P OnLine (lineText levels first) := by
  unfold lineText
  exact .inNodeIf (.loop inferInstance inferInstance _)

instance : Leads (NoBreak .text) OnLine (lineCondition levels) := by
  have : Leads Anywhere OnLine (eat .command .onceKw) := .eat (by simp)
  have : Leads Anywhere OnLine (eat .command .ifKw) := .eat (by simp)
  have : Leads Anywhere OnLine (expect .command .ifKw "expected `if`") := .expect (by simp) _
  unfold lineCondition conditionRest
  infer_instance

instance : Leads (NoBreak .text) OnLine hashtag := by
  have : Leads Anywhere OnLine (expect .hashtag .hashtagText "expected hashtag text") :=
    .expect (by simp) _
  unfold hashtag
  infer_instance

instance : Leads P OnLine hashtags :=
  .repeatWhile .text (fun s hg => by simp [hg]) fun s hg hc => by
    have hk : s.kindAt .text = .hash := by simpa [hg] using hc
    simp [hk]

instance : Leads P Untouched (lineRest levels) := by
  unfold lineRest
  refine .isAt (by simp) ?_ ?_
  · simp only [if_true]
    refine .keepCommand fun command => ?_
    split <;> infer_instance
  · simp only [Bool.false_eq_true, if_false]
    infer_instance

instance (first : Mode) : Leads P Untouched (line levels first) := by
  rw [line]
  dsimp only
  infer_instance

end

/-! ### Commands -/

lemma lineBreak?_of_keyword {t : Text} (h : commandKeywordAt? t ≠ none) :
    Text.lineBreak? (Text.dropBlanks t) = none := by
  rcases hd : Text.dropBlanks t with _ | ⟨c, cs⟩
  · rfl
  · refine Text.lineBreak?_cons cs ?_
    by_contra hbreak
    rw [Bool.not_eq_false] at hbreak
    have hstart : isWordStart c = false := by
      simp only [isLineBreak, Bool.or_eq_true, decide_eq_true_eq] at hbreak
      rcases hbreak with rfl | rfl <;> decide
    simp [commandKeywordAt?, hd, Text.word?, hstart] at h

/-- Behind a `<<` with a keyword, no line break stands next. -/
lemma noBreak_of_keyword {s : ParserState} (hg : s.Good) (h : AtKeyword s.scanner) :
    NoBreak .statement s.scanner ∧ NoBreak .command (s.take .statement).scanner := by
  obtain ⟨keyword, hkeyword⟩ := Option.ne_none_iff_exists'.1 h
  have hkind : (s.scanner.ahead .statement).token.kind = .commandStart :=
    kindAt_of_commandAt hkeyword
  obtain ⟨hfits, hcommand⟩ := hg.scanner.commandAhead_eq hkind
  refine ⟨by simp [NoBreak, hkind], ?_⟩
  obtain ⟨hstart, hbody⟩ := hg.scanner.ahead_command hkind
  have hafter : NoBreak .command (s.scanner.after .statement) := by
    rw [AtKeyword, hcommand] at h
    rw [NoBreak, ne_eq, Scanner.kind_eq_newline_iff hstart, not_not, hbody]
    exact lineBreak?_of_keyword h
  exact hafter

instance : Leads AtKeyword OnLine commandStart where
  leads s hg hs hP := by
    obtain ⟨h1, h2⟩ := noBreak_of_keyword hg hP
    have hne : s.kindAt .statement ≠ .eof := hs.ne_eof hg.scanner .statement
    rw [commandStart, after_bind, hg.after_advance, if_neg hne]
    refine Leads.leads (P := NoBreak .command) (hg.take .statement) ?_ h2
    exact hs.after hg.scanner h1

instance : Leads P Untouched commandClose := by
  unfold commandClose
  infer_instance

instance : Leads P OnLine commandVariable := by
  unfold commandVariable
  refine .isAt (by simp) ?_ ?_
  · simp only [if_true]
    infer_instance
  · simp only [Bool.false_eq_true, if_false]
    infer_instance

instance : Leads P OnLine eatEquals := by
  have : ∀ P, Leads P OnLine (eat .command .eq) := fun _ => .eat (by simp)
  have : Leads Anywhere OnLine (eat .command .toKw) := .eat (by simp)
  unfold eatEquals
  infer_instance

section
variable (levels : Nat)

instance : Leads AtKeyword Untouched (setCommand levels) := by
  unfold setCommand setValue
  refine .inNode
    (.seq inferInstance inferInstance fun _ => .seq inferInstance inferInstance fun _ =>
    .peekKind ?_ fun k _ => .optional inferInstance inferInstance fun _ => inferInstance)
  exact inferInstanceAs (Leads _ _ (error _ _ >>= fun _ => expr levels >>= fun _ => commandClose))

instance : Leads AtKeyword Untouched (callCommand levels) where
  leads s hg hs hP := by
    have : Leads Anywhere OnLine (callTarget levels) := .ranged inferInstance _
    rw [callCommand]
    exact Leads.leads hg hs hP

instance : Leads AtKeyword Untouched (declareCommand levels) := by
  have : Leads (NoBreak .command) OnLine typeClause := by
    unfold typeClause
    infer_instance
  have htail : Leads Anywhere Untouched (expr levels >>= fun _ => isAt .command .asKw >>= fun b =>
      if b then typeClause >>= fun _ => commandClose else commandClose) := by
    refine .seq inferInstance inferInstance fun _ => .isAt (by simp) ?_ ?_
    · rw [if_pos rfl]
      infer_instance
    · rw [if_neg (by simp)]
      infer_instance
  unfold declareCommand declareValue
  exact .inNode (.seq inferInstance inferInstance fun _ => .seq inferInstance inferInstance fun _ =>
    .seq inferInstance inferInstance fun _ =>
      .ite' (.seq inferInstance inferInstance fun _ => htail) htail)

instance : Leads AtKeyword Untouched (jumpCommand levels) := by
  have : Leads Anywhere OnLine (jumpTarget levels) := by
    unfold jumpTarget
    refine .isAt (by simp) ?_ ?_
    · simp only [if_true]
      infer_instance
    · simp only [Bool.false_eq_true, if_false]
      infer_instance
  unfold jumpCommand
  infer_instance

instance : Leads AtKeyword Untouched returnCommand := by
  unfold returnCommand
  infer_instance

instance (found : Bool) : Leads P OnLine (freeStep levels found) := by
  unfold freeStep
  refine .peekKind inferInstance fun k _ => ?_
  split <;> infer_instance

instance : Leads (NoBreak .statement) Untouched (freeCommand levels) := by
  have : Leads Anywhere OnLine (loop (freeStep levels) false) := .loop inferInstance inferInstance _
  have : Leads Anywhere OnLine (eat .commandText .commandEnd) := .eat (by simp)
  unfold freeCommand freeText freeRest
  dsimp only
  infer_instance

instance (keyword : Kind) : Leads (NoBreak .statement) Untouched (strayClause keyword) := by
  have htail : Leads (NoBreak .statement) Untouched (node .error (advance .statement >>= fun _ =>
      advanceLine) >>= fun _ => eatNewline) := by
    refine ⟨fun s hg hs hP => ?_⟩
    have hu := Rule.good (advance .statement) (good_start hg)
    have hline : ((advance .statement).after s.start).scanner.OnLine :=
      Leads.leads (P := NoBreak .statement) (good_start hg) hs hP
    have hline := Leads.after (Q := OnLine) advanceLine hu hline
    rw [after_bind, after_node, after_bind]
    exact untouched_eatNewline (good_complete (Rule.good advanceLine hu) _) hline
      (kindAt_advanceLine hu)
  unfold strayClause
  exact .bindError _ _ _

instance : Leads AtKeyword Untouched (enumCase levels) := by
  unfold enumCase
  dsimp only
  infer_instance

end

/-! ### Headers -/

instance : Leads (NoBreak .header) Untouched titleHeader := by
  have : Leads Anywhere OnLine (expect .header .colon "expected `:`") := .expect (by simp) _
  have : Leads Anywhere OnLine (expect .headerValue .restOfLine "expected node title") :=
    .expect (by simp) _
  unfold titleHeader titleRest
  infer_instance

instance : Leads P OnLine whenCondition := by
  have : Leads Anywhere OnLine (eat .whenHeader .ifKw) := .eat (by simp)
  unfold whenCondition conditionAt
  refine .inNode (.peekKind inferInstance fun k _ => ?_)
  split <;> infer_instance

instance : Leads (NoBreak .header) Untouched whenHeader := by
  have : Leads Anywhere OnLine (expect .header .colon "expected `:`") := .expect (by simp) _
  unfold whenHeader
  infer_instance

instance : Leads (NoBreak .header) Untouched genericHeader := by
  have : Leads Anywhere OnLine (expect .header .colon "expected `:`") := .expect (by simp) _
  have : Leads Anywhere OnLine (eat .headerValue .restOfLine) := .eat (by simp)
  unfold genericHeader headerRest
  infer_instance

instance : Leads (NoBreak .header) Untouched fileHashtag := by
  have : Leads Anywhere OnLine (expect .hashtag .hashtagText "expected hashtag text") :=
    .expect (by simp) _
  unfold fileHashtag
  infer_instance

instance : Leads (NoBreak .header) Untouched strayLine := by
  rw [strayLine_eq]
  infer_instance

end Parser

end DialogueScript
