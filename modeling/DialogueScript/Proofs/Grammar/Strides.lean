import DialogueScript.Proofs.Grammar.FirstLine
import DialogueScript.Proofs.Grammar.Forward
import DialogueScript.Proofs.Grammar.Items

/-!
Loops that move. What a step of a loop takes makes the budget smaller; here it is shown to be text,
so that each step that goes on moves the position. A loop is followed without a bound on its steps.
-/

set_option synthInstance.maxSize 512

namespace DialogueScript

namespace Scanner

/-- The position of the second scanner is behind that of the first. -/
def Before (s s' : Scanner) : Prop := s.offset < s'.offset

end Scanner

namespace Parser

open ParserState

variable {α β σ : Type}

/-- The values and states in which a loop comes to its step. -/
inductive Visits (step : σ → Parser (ForInStep σ)) (a : σ) (s : ParserState) :
    σ → ParserState → Prop where
  | first : Visits step a s a s
  | next {b c : σ} {u : ParserState} : Visits step a s b u → (step b).answer u = .yield c →
      Visits step a s c ((step b).after u)

/-- Each step that does not leave the loop leads to a scanner in relation `R`. -/
def Onward (R : Scanner → Scanner → Prop) (step : σ → Parser (ForInStep σ)) (a : σ)
    (s : ParserState) :
    Prop :=
  ∀ ⦃b u⦄, Visits step a s b u → ∀ ⦃c⦄, (step b).answer u = .yield c →
    R u.scanner ((step b).after u).scanner

section
variable {R : Scanner → Scanner → Prop} {step : σ → Parser (ForInStep σ)} {a b : σ}
  {s u : ParserState} {I : σ → ParserState → Prop}

lemma Visits.keeps (h : Visits step a s b u) (hs : I a s)
    (hI : ∀ ⦃a s⦄, I a s → ∀ ⦃b⦄, (step a).answer s = .yield b → I b ((step a).after s)) :
    I b u := by
  induction h with
  | first => exact hs
  | next _ hb ih => exact hI ih hb

lemma Onward.of_invariant (hs : I a s)
    (hI : ∀ ⦃a s⦄, I a s → ∀ ⦃b⦄, (step a).answer s = .yield b →
      R s.scanner ((step a).after s).scanner ∧ I b ((step a).after s)) : Onward R step a s :=
  fun _ _ hv _ hb => (hI (hv.keeps hs fun _ _ h _ hb => (hI h hb).2) hb).1

/-- A loop that is left at once. -/
lemma Onward.of_done (h : ∀ b, (step a).answer s ≠ .yield b) : Onward R step a s :=
  Onward.of_invariant (I := fun b u => b = a ∧ u = s) ⟨rfl, rfl⟩ fun _ _ ⟨hb, hu⟩ c hc => by
    rw [hb, hu] at hc
    exact absurd hc (h c)

/-- A loop in which no indentation is compared. -/
lemma Onward.of_flat [∀ a, Flat (step a)] (h : Advances I step) (hg : s.Good) (hs : I a s)
    (hcalm : s.scanner.Calm) : Onward Scanner.Before step a s := by
  refine .of_invariant (I := fun a s => s.Good ∧ I a s ∧ s.scanner.Calm) ⟨hg, hs, hcalm⟩ ?_
  rintro a s ⟨hg, hs, hcalm⟩ b hb
  obtain ⟨hlt, hnext⟩ := h hg hs hb
  exact ⟨Flat.offset_lt (step a) hg hcalm hlt, Flat.good (step a) hg, hnext,
    Flat.calm (step a) hg hcalm⟩

/-- A loop whose steps start where no block is closed. -/
lemma Onward.of_moved (hr : ∀ a, Reading (step a)) (h : Advances I step) (hg : s.Good) (hs : I a s)
    (hk : ∀ ⦃a s⦄, s.Good → I a s → ∀ ⦃b⦄, (step a).answer s = .yield b →
      s.kindAt .statement ≠ .dedent) : Onward Scanner.Before step a s := by
  refine .of_invariant (I := fun a s => s.Good ∧ I a s) ⟨hg, hs⟩ ?_
  rintro a s ⟨hg, hs⟩ b hb
  obtain ⟨hlt, hnext⟩ := h hg hs hb
  have hreads := hr a hg
  refine ⟨?_, (hreads.follows hg).good, hnext⟩
  exact (hreads.moved hg (hk hg hs hb)).resolve_right fun hidle => hlt.ne hidle.budget

end

/-! ### Expressions and text -/

instance (condition : Parser Bool) (rule : Parser Unit) [Flat condition] [Flat rule] :
    Flat (whileStep condition rule) := by
  unfold whileStep
  infer_instance

section
variable (levels : Nat) {s : ParserState}

lemma onward_deepStep (hg : s.Good) (hcalm : s.scanner.Calm) : Onward Scanner.Before deepStep 0 s :=
  .of_flat advances_deepStep hg trivial hcalm

/-- At the end of a block no operator stands, so there the loop over the operators is left. -/
lemma onward_operatorStep {operand : Parser (Option Kind)} [Rule operand] [Flat operand]
    (tiers floor : Nat) (first : Kind) (hg : s.Good) :
    Onward Scanner.Before (operatorStep (climb operand tiers) floor) first s := by
  by_cases hk : s.kindAt .expr = .dedent
  · refine .of_done fun b => ?_
    simp [operatorStep, hg, hk, BinaryOp.ofKind?]
  · exact .of_flat (advances_operatorStep operand (rule_climb operand tiers) floor) hg trivial
      (Scanner.calm_of_kind_ne hg.scanner.toSane hk)

/-- A repetition in which no indentation is compared. -/
lemma onward_whileStep {condition : Parser Bool} {rule : Parser Unit} (mode : Mode)
    [Consumes mode rule] [Flat condition] [Flat rule]
    (hlook : ∀ ⦃s⦄, s.Good → condition.after s = s.look mode)
    (h : ∀ ⦃s⦄, s.Good → condition.answer s = true → s.kindAt mode ≠ .eof) (hg : s.Good)
    (hcalm : s.scanner.Calm) : Onward Scanner.Before (fun _ => whileStep condition rule) () s :=
  .of_flat (advances_whileStep mode hlook h) hg trivial hcalm

lemma onward_advanceLine (hg : s.Good) (hcalm : s.scanner.Calm) :
    Onward Scanner.Before (fun _ => whileStep (isInLine .text) (advance .text)) () s :=
  onward_whileStep .text (fun s hg => by simp [hg]) (not_eof_of_inLine .text) hg hcalm

lemma onward_hashtags (hg : s.Good) (hcalm : s.scanner.Calm) :
    Onward Scanner.Before (fun _ => whileStep (isAt .text .hash) hashtag) () s := by
  refine onward_whileStep .text (fun s hg => by simp [hg]) (fun s hg hc => ?_) hg hcalm
  have hk : s.kindAt .text = .hash := by simpa [hg] using hc
  simp [hk]

lemma onward_advanceTo {ends : KindSet} (hends : ends.contains .eof = true) (hg : s.Good)
    (hcalm : s.scanner.Calm) :
    Onward Scanner.Before (fun _ => whileStep (isBefore .expr ends) (advance .expr)) () s :=
  onward_whileStep .expr (fun s hg => by simp [hg]) (ne_of_before .expr hends) hg hcalm

lemma onward_argStep (hg : s.Good) (hcalm : s.scanner.Calm) :
    Onward Scanner.Before (fun _ => argStep (expr levels)) () s := by
  have hsettles :=
    settles_climb (operand levels) (rule_operand levels).2 (BinaryOp.maxPrecedence + 1) 0
  exact .of_flat (advances_argStep (expr levels) hsettles) hg trivial hcalm

lemma onward_freeStep (found : Bool) (hg : s.Good) :
    Onward Scanner.Before (freeStep levels) found s := by
  by_cases hk : s.kindAt .commandText = .dedent
  · refine .of_done fun b => ?_
    simp [freeStep, hg, hk]
  · exact .of_flat (advances_freeStep levels) hg trivial
      (Scanner.calm_of_kind_ne hg.scanner.toSane hk)

lemma triple_interpolation (mode : Mode) : Triple (Scanner.Sees mode (· ≠ .dedent))
    (interpolation levels mode) fun _ => Scanner.Calm := by
  unfold interpolation interpolationEnd
  exact .node _ (.bind (.advance mode) fun _ => .flat _)

/-- Where the text of a line has started, the indentation of the line has been compared. -/
def TextAt (first : Mode) : Bool → Scanner → Prop
  | false => Scanner.Sees first (· ≠ .dedent)
  | true => Scanner.Calm

lemma triple_textStep (first : Mode) (found : Bool) : Triple (TextAt first found)
    (textStep levels first found) (OrDone (TextAt first) (TextAt first)) := by
  cases found
  · change Triple (Scanner.Sees first (· ≠ .dedent)) _ _
    unfold textStep
    refine .peekKind fun k hk => ?_
    split
    · exact .bind (.at_kind (.advance first) hk) fun _ => .pure fun _ h => h
    · exact .bind (.at_kind (.advance first) hk) fun _ => .pure fun _ h => h
    · exact .bind (.at_kind (triple_interpolation levels first) hk) fun _ => .pure fun _ h => h
    · exact .bind (.node _ (.at_kind (.advance first) hk)) fun _ => .pure fun _ h => h
    · exact .pure fun _ h => h.trans_ne hk
  · intro s hg hs
    obtain ⟨hforward, hcalm⟩ := Triple.flat (textStep levels .text true) hg hs
    refine ⟨hforward, ?_⟩
    have hanswer : (textStep levels first true).answer s = .yield true ∨
        (textStep levels first true).answer s = .done true := by
      simp only [textStep, answer_bind]
      split <;> simp
    rcases hanswer with h | h <;> rw [h] <;> exact hcalm

lemma onward_textStep (first : Mode) (hg : s.Good) :
    Onward Scanner.Before (textStep levels first) false s := by
  refine .of_invariant (I := fun found s => s.Good ∧ (found = true → s.scanner.Calm))
    ⟨hg, by simp⟩ ?_
  rintro found s ⟨hg, hcalm⟩ next hb
  have hlt := (advances_textStep levels first hg trivial hb).1
  have hgood := Rule.good (textStep levels first found) hg
  cases found
  · have hk : s.kindAt first ≠ .dedent := by
      intro hk
      simp [textStep, hg, hk] at hb
    have hnext := (triple_textStep levels first false hg hk).2
    rw [hb] at hnext
    refine ⟨?_, hgood, ?_⟩
    swap
    · rintro rfl
      exact hnext
    cases hm : first.isIndentSensitive
    · have : Fact (first.isIndentSensitive = false) := ⟨hm⟩
      exact Flat.offset_lt (textStep levels first false) hg
        (Scanner.calm_of_kind_ne hg.scanner.toSane hk) hlt
    · refine (Reads.moved (Rule.reads hg) hg ?_).resolve_right fun hidle => hlt.ne hidle.budget
      exact Scanner.kind_ne_dedent hg.scanner.toSane hm hk .statement
  · have hc := hcalm rfl
    have heq : textStep levels first true = textStep levels .text true := rfl
    rw [heq] at hlt hgood ⊢
    exact ⟨Flat.offset_lt (textStep levels .text true) hg hc hlt, hgood,
      fun _ => Flat.calm (textStep levels .text true) hg hc⟩

end

/-! ### Enums and groups -/

section
variable (levels : Nat) {s : ParserState}

lemma onward_enumStep (cases : Nat) (hg : s.Good) :
    Onward Scanner.Before (enumStep levels) cases s := by
  refine .of_moved (fun _ => Rule.reads) (advances_enumStep levels) hg trivial ?_
  intro cases s hg _ next hb hk
  have hu := Rule.good poll hg
  have hk' : (poll.after s).kindAt .statement = .dedent := by rwa [kindAt, scanner_poll]
  rw [enumStep, answer_bind] at hb
  split at hb
  · simp at hb
  · simp [hu, hk', enumStepAt] at hb

lemma onward_caseStep (nesting cases : Nat) (hg : s.Good) (hs : Between nesting s) :
    Onward Scanner.Before (caseStep levels (caseBlock levels nesting)) cases s := by
  refine .of_moved (fun a => reading_caseStep levels (reading_caseBlock levels nesting) a)
    (advances_caseStep levels (caseBlock_spec levels nesting)) hg hs ?_
  intro cases s hg _ next hb hk
  simp [caseStep, hg, hk, caseStepAt] at hb

/-- The cases of a block start behind the token that opens it. -/
lemma onward_caseBlock {nesting : Nat} (hg : s.Good) (h : Fits (nesting + 1) s) :
    Onward Scanner.Before (caseStep levels (caseBlock levels nesting)) 0
      ((advance .statement).after s) :=
  onward_caseStep levels nesting 0 (Rule.good _ hg) (h.advance hg)

variable (statement : KindSet → Parser Unit) [∀ t, Rule (statement t)] (lineGroup : Bool)

lemma onward_groupStep {mode : Mode} (hg : s.Good) (hs : AtArrow lineGroup mode s) :
    Onward Scanner.Before (groupStep statement levels lineGroup) mode s := by
  refine .of_moved (fun _ => Rule.reads)
    (advances_groupStep_sensitive statement levels lineGroup) hg hs ?_
  rintro mode s hg ⟨hm, hk⟩ _ _
  refine Scanner.kind_ne_dedent hg.scanner.toSane hm (hk.trans_ne ?_) .statement
  rcases arrowOf_cases lineGroup with h | h <;> simp [h]

end

/-! ### Statements -/

section
variable (statement : KindSet → Parser Unit) [∀ t, Rule (statement t)] (levels : Nat)
  (terminators : KindSet) {s : ParserState}

lemma onward_ifStep (afterElse : Bool) (hg : s.Good) :
    Onward Scanner.Before (ifStep statement levels terminators) afterElse s := by
  refine .of_moved (fun _ => Rule.reads) (advances_ifStep statement levels terminators) hg
    trivial ?_
  intro afterElse s hg _ next hb hk
  rcases hc : s.commandAt .statement with _ | keyword
  · simp [ifStep, hg, hc] at hb
  · simp [kindAt_of_commandAt hc] at hk

lemma onward_onceStep (afterElse : Bool) (hg : s.Good) :
    Onward Scanner.Before (onceStep statement levels terminators) afterElse s := by
  refine .of_moved (fun _ => Rule.reads) (advances_onceStep statement levels terminators) hg
    trivial ?_
  intro afterElse s hg _ next hb hk
  rcases hc : s.commandAt .statement with _ | keyword
  · simp [onceStep, hg, hc] at hb
  · simp [kindAt_of_commandAt hc] at hk

/-- A line that stands in a body is taken with its end, which is not the end of the text. -/
lemma budget_line (hg : s.Good) (hs : s.scanner.isFresh = false) (h₁ : s.kindAt .statement ≠ .eof)
    (h₂ : s.kindAt .statement ≠ .dedent) :
    ((line levels .statement).after s).scanner.budget < s.scanner.budget := by
  have hf := Rule.follows (line levels .statement) hg
  have hended := EndsLine.after (line levels .statement) hg
  rcases hf.budget with hlt | hidle
  · exact hlt
  · have hk : ((line levels .statement).after s).kindAt .statement = s.kindAt .statement := by
      rw [kindAt, hidle.ahead .statement rfl, kindAt]
    rcases hended with hfresh | heof
    · have := length_lt_of_untouched hf hs hfresh
      rw [hidle.rest] at this
      omega
    · rcases Scanner.eof_or_dedent hf.good.scanner.toSane heof with h | h
      · exact absurd (hk.symm.trans h) h₁
      · exact absurd (hk.symm.trans h) h₂

instance : Consumes .statement (block statement) := by
  unfold block
  infer_instance

lemma budget_group (lineGroup : Bool) (hg : s.Good) (hk : s.kindAt .statement = arrowOf lineGroup) :
    ((group levels statement lineGroup).after s).scanner.budget < s.scanner.budget := by
  have hstart := good_start hg
  rw [group, after_node, after_bind, after_pure, scanner_complete]
  exact lt_of_le_of_lt (loop_budget_le (fun _ => Rule.reads) hstart _)
    (budget_groupStep statement levels hstart hk)

/-- Each command takes its `<<`. -/
lemma budget_command (hg : s.Good) (hk : s.kindAt .statement = .commandStart) :
    ((command levels statement terminators).after s).scanner.budget < s.scanner.budget := by
  have hconsumes : ∀ (p : Parser Unit) [Consumes .statement p],
      (p.after (s.look .statement)).scanner.budget < s.scanner.budget := by
    intro p _
    rw [← budget_look s .statement]
    exact Consumes.lt .statement p (hg.look .statement) (by simp [hk])
  rw [command, after_bind, hg.answer_peekCommand, hg.after_peekCommand]
  split
  · unfold ifStatement
    exact hconsumes _
  · unfold onceStatement
    have : Consumes .statement
        (onceClause levels statement (terminators.union onceTerminators)) := by
      unfold onceClause onceCommand
      infer_instance
    exact hconsumes _
  · exact hconsumes (setCommand levels)
  · exact hconsumes (callCommand levels)
  · exact hconsumes (declareCommand levels)
  · exact hconsumes (jumpCommand levels)
  · exact hconsumes (jumpCommand levels)
  · exact hconsumes returnCommand
  · have : Consumes .statement enumHead := by
      unfold enumHead
      infer_instance
    unfold enumCommand
    exact hconsumes _
  · split
    · exact hconsumes (strayClause _)
    · exact hconsumes (freeCommand levels)
  · exact hconsumes (freeCommand levels)

lemma budget_statementOf (hg : s.Good) (h₁ : s.kindAt .statement ≠ .newline)
    (h₂ : ¬ endsBlock (s.kindAt .statement)) :
    ((statementOf levels statement terminators).after s).scanner.budget < s.scanner.budget := by
  have hlook := hg.look .statement
  have heof : s.kindAt .statement ≠ .eof := fun h => h₂ (.inl h)
  have hkind := kindAt_look s .statement
  rw [statementOf, after_bind, hg.answer_peekKind, hg.after_peekKind, ← budget_look s .statement]
  split
  · exact Consumes.lt .statement (block statement) hlook (by rwa [hkind])
  · next hk => exact budget_group statement levels false hlook (hkind.trans hk)
  · next hk => exact budget_group statement levels true hlook (hkind.trans hk)
  · next hk => exact budget_command statement levels terminators hlook (hkind.trans hk)
  · rw [after_bind]
    exact lt_of_le_of_lt (Rule.budget_le eatNewline (Rule.good _ hlook))
      (Consumes.skipLine hlook (by rwa [hkind]) (by rwa [hkind]))
  · refine budget_line levels hlook (isFresh_look s _) (by rwa [hkind]) ?_
    rw [hkind]
    exact fun h => h₂ (.inr (.inr (.inr h)))

/-- **Each statement moves the position**, where the last line was taken with its end and the
statements do not end. -/
theorem offset_lt_statement (levels : Nat) (terminators : KindSet) (hg : s.Good)
    (h₁ : s.kindAt .statement ≠ .newline) (h₂ : ¬ endsBlock (s.kindAt .statement)) :
    s.scanner.offset < ((Parser.statement levels terminators).after s).scanner.offset := by
  have hlt : ((Parser.statement levels terminators).after s).scanner.budget < s.scanner.budget := by
    cases levels with
    | zero =>
      rw [Parser.statement, after_bind]
      exact (errorLine_spec hg _ h₁ fun h => h₂ (.inl h)).1
    | succ levels =>
      rw [Parser.statement]
      exact budget_statementOf _ _ _ hg h₁ h₂
  refine (Reads.moved (Rule.reads hg) hg ?_).resolve_right fun hidle => hlt.ne hidle.budget
  exact fun h => h₂ (.inr (.inr (.inr h)))

end

/-! ### Headers, bodies and files -/

section
variable {s : ParserState}

lemma onward_headerStep (titles : Nat) (hg : s.Good) (hs : AtHeader s) (hcalm : s.scanner.Calm) :
    Onward Scanner.Before headerStep titles s :=
  .of_flat advances_headerStep hg hs hcalm

/-- The statements of a body go on behind the end of a block that was not opened there. -/
lemma onward_bodyStep (hg : s.Good) : Onward
    (fun s s' => s.Before s' ∨ s'.stack.depth < s.stack.depth) (fun _ : Unit => bodyStep) () s := by
  refine .of_invariant (I := fun _ => Good) hg fun _ s hg _ hb => ?_
  have hlt := (@advances_bodyStep () s hg trivial _ hb).1
  have hf := Rule.follows bodyStep hg
  refine ⟨?_, hf.good⟩
  by_cases hdepth : s.scanner.stack.depth ≤ (bodyStep.after s).scanner.stack.depth
  · exact .inl (hf.offset_lt_of_budget hdepth hlt)
  · exact .inr (Nat.lt_of_not_le hdepth)

instance : Flat bodyHead := by
  unfold bodyHead
  infer_instance

lemma offset_lt_body (hg : s.Good) (hcalm : s.scanner.Calm) (hk : s.kindAt .header ≠ .eof) :
    s.scanner.offset < (body.after s).scanner.offset := by
  have hstart := good_start hg
  have hhead := Flat.offset_lt bodyHead hstart hcalm (Consumes.lt .header bodyHead hstart hk)
  rw [body, after_node, after_bind, scanner_complete]
  exact lt_of_lt_of_le hhead (Rule.follows (bodyStatements >>= fun _ => bodyClose)
    (Flat.good bodyHead hstart)).offset_le

/-- The first header of a node moves the position, or the start of its body does. -/
lemma offset_lt_dialogueNode (hg : s.Good) (hs : AtHeader s) (hcalm : s.scanner.Calm)
    (hk : nodeFirst.contains (s.kindAt .header) = true) :
    s.scanner.offset < (dialogueNode.after s).scanner.offset := by
  have hstart := good_start hg
  have hscanner := scanner_nodeHeaders hstart
  have hbudget : (s.start.look .header).scanner.budget = s.start.scanner.budget :=
    budget_look s.start _
  have hskims := Flat.skims (p := nodeHeaders) hstart
  have hv := Flat.good nodeHeaders hstart
  have hcalm' := Flat.calm nodeHeaders hstart hcalm
  have hfollows := Rule.follows nodeTail hv
  have hspec := budget_headers (hstart.look .header) (AtHeader.look (s := s.start) hs)
    (by rwa [kindAt_look, kindAt_start])
  have hle := (hskims.reads.follows hstart).offset_le
  rw [dialogueNode, after_bind, after_pure, after_nodeOf, after_bind, scanner_complete,
    ← scanner_start s]
  rw [← hscanner, hbudget] at hspec
  rcases hspec with hlt | ⟨h₁, h₂⟩
  · exact lt_of_lt_of_le (Flat.offset_lt nodeHeaders hstart hcalm hlt) hfollows.offset_le
  · have hbody : (nodeHeaders.after s.start).kindAt .header = .bodyStart := by
      rw [kindAt, hscanner, h₂, look_look, ← kindAt]
      exact h₁
    generalize nodeHeaders.after s.start = u at *
    have hlook := Flat.calm (peekKind .header) hv hcalm'
    rw [hv.after_peekKind] at hlook
    have hlt := offset_lt_body (hv.look .header) hlook (by simp [hbody])
    have hoff : (u.look .header).scanner.offset = u.scanner.offset := Scanner.settle_offset _ _
    have htail : (nodeTail.after u).scanner = (body.after (u.look .header)).scanner := by
      rw [nodeTail, after_bind, hv.answer_isAt, hv.after_isAt, hbody, decide_eq_true rfl,
        if_pos rfl, after_bind]
      split <;> rw [after_pure]
    rw [htail]
    omega

lemma offset_lt_child (hg : s.Good) (hs : AtHeader s) (hcalm : s.scanner.Calm)
    (hk : s.kindAt .header ≠ .eof) :
    s.scanner.offset < ((child (s.kindAt .header)).after s).scanner.offset := by
  have hlt := (child_spec hg hs hk).1
  unfold child at hlt ⊢
  split
  · rw [if_pos ‹_›] at hlt
    exact Flat.offset_lt fileHashtag hg hcalm hlt
  · rw [if_neg ‹_›] at hlt
    split
    · exact offset_lt_dialogueNode hg hs hcalm ‹_›
    · rw [if_neg ‹_›] at hlt
      exact Flat.offset_lt strayLine hg hcalm hlt

/-- What a child of the root needs: no block is closed next and no line ends, unless reading has
been cancelled and nothing more is read. -/
def AtChild (s : ParserState) : Prop := s.cancelled = true ∨ AtHeader s ∧ s.scanner.Calm

lemma atChild_child (hg : s.Good) (hs : AtHeader s) (hk : s.kindAt .header ≠ .eof) :
    AtChild ((child (s.kindAt .header)).after s) := by
  have hu := ((reading_child (s.kindAt .header)).follows hg).good
  have hsane := hu.scanner.toSane
  have hat := atHeader_child hg hs hk
  obtain ⟨-, tree, -, hends⟩ := child_spec hg hs hk
  generalize (child (s.kindAt .header)).after s = u at *
  have hcalm : ∀ {mode : Mode} {k : Kind}, u.kindAt mode = k → k ≠ .dedent → AtChild u :=
    fun h hk => hat.imp_right fun hat => ⟨hat, Scanner.calm_of_kind_ne hsane (h.trans_ne hk)⟩
  rcases hends with h | ⟨-, h | h | h⟩ | h | h
  · exact hat.imp_right fun hat => ⟨hat, h.calm hsane⟩
  · exact .inl h
  · exact hcalm h (by simp)
  · exact hcalm h (by simp)
  · exact hcalm h (by simp)
  · exact hcalm h (by simp)

/-- A step over the children of the root that goes on has read one. -/
lemma itemStep_child {nodes next : Nat} (hg : s.Good) (hs : AtChild s)
    (hb : (itemStep nodes).answer s = .yield next) : ∃ u : ParserState, u.Good ∧ AtHeader u ∧
      u.scanner.Calm ∧ u.kindAt .header ≠ .eof ∧ Forward s.mark u ∧
      u.scanner.offset = s.scanner.offset ∧ u.forest = s.forest ∧
      (itemStep nodes).after s = (child (u.kindAt .header)).after u := by
  have hpoll := Rule.good poll hg.mark
  have hscanner := scanner_poll s.mark
  rcases itemStep_cases hg nodes with ⟨-, heq, -⟩ | ⟨-, -, heq, -⟩ | ⟨hp, hk, -, heq⟩
  · simp [heq] at hb
  · simp [heq] at hb
  · have hrunning : s.cancelled = false := running_of_poll (s := s.mark) hp
    obtain ⟨hat, hcalm⟩ := hs.resolve_left (by simp [hrunning])
    have hat' : AtHeader (poll.after s.mark) := by rwa [AtHeader, kindAt, hscanner]
    have hcalm' : (poll.after s.mark).scanner.Calm := by rwa [hscanner]
    have hlook := Flat.calm (peekKind .header) hpoll hcalm'
    rw [hpoll.after_peekKind] at hlook
    refine ⟨(poll.after s.mark).look .header, hpoll.look .header, hat'.look, hlook, ?_, ?_,
      ?_, ?_, ?_⟩
    · rwa [kindAt_look]
    · exact .look .header (.poll (.refl _))
    · exact (Scanner.settle_offset _ _).trans (congrArg Scanner.offset hscanner)
    · exact forest_poll s.mark
    · rw [heq, kindAt_look]

lemma itemStep_keeps {nodes next : Nat} (hg : s.Good) (hs : AtChild s)
    (hb : (itemStep nodes).answer s = .yield next) :
    ((itemStep nodes).after s).Good ∧ AtChild ((itemStep nodes).after s) := by
  obtain ⟨u, hu, hat, -, hk, -, -, -, heq⟩ := itemStep_child hg hs hb
  rw [heq]
  exact ⟨((reading_child _).follows hu).good, atChild_child hu hat hk⟩

lemma onward_itemStep (nodes : Nat) (hg : s.Good) (hs : AtChild s) :
    Onward Scanner.Before itemStep nodes s := by
  refine .of_invariant (I := fun _ s => s.Good ∧ AtChild s) ⟨hg, hs⟩ ?_
  rintro nodes s ⟨hg, hs⟩ next hb
  obtain ⟨u, hu, hat, hcalm, hk, -, hoff, -, heq⟩ := itemStep_child hg hs hb
  have hlt := offset_lt_child hu hat hcalm hk
  refine ⟨?_, itemStep_keeps hg hs hb⟩
  rw [heq]
  exact lt_of_eq_of_lt hoff.symm hlt

end

end Parser

end DialogueScript
