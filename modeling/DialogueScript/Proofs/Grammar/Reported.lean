import DialogueScript.Proofs.Grammar.Honest

/-!
Each rule of the grammar, up to whole statements, hides no error.
-/

set_option synthInstance.maxSize 4096

namespace DialogueScript

namespace Parser

open ParserState

/-! ### Recovery -/

section
variable (mode : Mode) (message : String)

instance (recovery : KindSet) : Honest (errorRecover mode message recovery) := by
  have : HonestWhenOwed mode (isAtAny mode recovery >>= fun a => isAtLineEnd mode >>= fun b =>
      if (!a && !b) = true then node .error (advance mode) else pure ()) :=
    .isAtAny (.inl rfl) fun _ => .isAtLineEnd (.inl rfl) fun _ => inferInstance
  unfold errorRecover
  infer_instance

instance : Honest advanceLine := by
  unfold advanceLine
  infer_instance

instance : ReportsOwed mode (skipLine mode) := by
  unfold skipLine
  exact .isAtLineEnd (fun _ => inferInstance) (inferInstanceAs (ReportsOwed mode (node .error _)))

instance : AlwaysReports (errorLine mode message) := by
  unfold errorLine
  infer_instance

instance : Honest eatNewline := by
  unfold eatNewline
  infer_instance

instance : Honest (endOfLine mode) := by
  unfold endOfLine
  infer_instance

end

/-- Taking tokens of an expression up to one of some kinds makes the report that is owed. -/
lemma reportsOwed_advanceTo (ends : KindSet) (he : ends.contains .errorToken = false) :
    ReportsOwed .expr (advanceTo ends) := by
  unfold advanceTo repeatWhile
  refine .loop (fun _ => Rule.reads) ?_
  unfold whileStep isBefore
  simp only [bind_assoc, pure_bind]
  refine .isAtAny he (fun _ => inferInstance) ?_
  exact inferInstanceAs (ReportsOwed .expr (advance .expr >>= fun _ => pure (ForInStep.yield ())))

/-- What is owed after `<<` is owed in an expression. -/
lemma HonestWhenOwed.command {α : Type} {p : Parser α} (h : HonestWhenOwed .expr p) :
    HonestWhenOwed .command p :=
  ⟨fun _ hg hq ht ho => h.tidy hg hq ht (ho.imp_right (Scanner.error_of_terms rfl rfl))⟩

/-- What follows a missing `>>` that was reported, or is owed, in an expression. -/
lemma honestWhenOwed_commandEnd {mode : Mode} (hm : mode.isIndentSensitive = false) :
    HonestWhenOwed .expr (isAtLineEnd mode >>= fun b => if b = true then pure () else
      node .error (advanceTo commandEnds) >>= fun _ =>
        eat .expr .commandEnd >>= fun _ => pure ()) := by
  have := reportsOwed_advanceTo commandEnds (by decide)
  exact .isAtLineEnd (.inr hm) fun _ => inferInstance

instance : Honest (commandEnd .expr) := by
  have := honestWhenOwed_commandEnd (show Mode.isIndentSensitive .expr = false from rfl)
  unfold commandEnd
  infer_instance

instance : Honest (commandEnd .command) := by
  have := (honestWhenOwed_commandEnd
    (show Mode.isIndentSensitive .command = false from rfl)).command
  unfold commandEnd
  infer_instance

instance (recovery : KindSet) : Honest (name recovery) := by
  have : Honest (node .name (advance .name)) := .inNode (by decide) inferInstance inferInstance
  unfold name
  infer_instance

/-! ### Expressions -/

instance : Honest tooDeep := by
  have : ReportsOwed .expr (loop deepStep 0) :=
    .loop (fun _ => Rule.reads) (.peekKind (fun _ => inferInstance) (inferInstanceAs
      (ReportsOwed .expr (advance .expr >>= fun _ => pure (ForInStep.yield 0)))))
  unfold tooDeep
  infer_instance

instance : Honest variableExpr := by
  unfold variableExpr
  exact .inNode (by decide) inferInstance inferInstance

instance : Honest memberName := by
  unfold memberName
  infer_instance

section
variable (expr : Parser (Option Kind)) [Rule expr] [Honest expr]

instance : Honest (argList expr) := by
  have : Honest (argStep expr) := by
    unfold argStep argEnd
    infer_instance
  unfold argList
  exact .inNode (by decide) inferInstance inferInstance

omit [Honest expr] in
instance : Readable (argList expr) := by
  unfold argList
  infer_instance

omit [Rule expr] [Honest expr] in
lemma honest_wordHead : Honest (nodeOf wordKind) := by
  refine .inNodeOf (fun s => ?_) inferInstance ?_
  · rcases answer_wordKind s with h | h <;> rw [h]
    · exact show Tree.Ordinary .name by decide
    · exact show Tree.Ordinary .identExpr by decide
  · unfold wordKind
    refine .seq inferInstance inferInstance fun _ => .seq inferInstance inferInstance fun k => ?_
    split <;> infer_instance

omit [Honest expr] in
instance : Readable (wordExpr expr) := by
  unfold wordExpr wordTail
  infer_instance

instance : Honest (wordExpr expr) := by
  have := honest_wordHead
  have : Honest (nodeAround .callExpr (argList expr)) :=
    .inNodeAround (by decide) inferInstance inferInstance
  have : Honest (nodeAround .memberExpr memberName) :=
    .inNodeAround (by decide) inferInstance inferInstance
  unfold wordExpr wordTail
  infer_instance

lemma honest_literalExpr {kind : Kind} (hk : Tree.Ordinary kind) : Honest (literalExpr kind) := by
  have : Honest (node kind (advance .expr)) := .inNode hk inferInstance inferInstance
  unfold literalExpr
  infer_instance

instance : Honest (primaryExpr expr) := by
  have hparen : Honest (node .parenExpr (advance .expr >>= fun _ => expr >>= fun _ =>
      expect .expr .rightParen "expected `)`" >>= fun _ => pure ())) :=
    .inNode (by decide) inferInstance inferInstance
  have hmember : Honest (node .memberExpr memberName) :=
    .inNode (by decide) inferInstance inferInstance
  unfold primaryExpr
  refine .seq inferInstance inferInstance fun k => ?_
  unfold primaryAt parens
  split
  · exact honest_literalExpr (by decide)
  · exact honest_literalExpr (by decide)
  · exact honest_literalExpr (by decide)
  · exact honest_literalExpr (by decide)
  · exact honest_literalExpr (by decide)
  all_goals infer_instance

end

section
variable (operand : Parser (Option Kind)) [Rule operand]

lemma honest_operators {tiers : Nat} (h : ∀ floor, Honest (climb operand tiers floor)) (floor : Nat)
    (first : Kind) : Honest (operators (climb operand tiers) floor first) := by
  have := rule_climb operand tiers
  have (op : BinaryOp) : Honest (nodeAround .binaryExpr (advance .expr >>= fun _ =>
      climb operand tiers op.precedence >>= fun _ => pure ())) :=
    .inNodeAround (by decide) inferInstance inferInstance
  refine .seq ⟨.loop (fun _ => .bind Rule.reads fun k => ?_) _⟩
    (.loop (fun _ => .bind Rule.reads fun k => ?_)
      (fun _ => .seq inferInstance inferInstance fun k => ?_) _)
    fun _ => inferInstance
  · split <;> exact Rule.reads
  · split <;> exact Rule.reads
  · split <;> infer_instance

variable [Honest operand]

lemma honest_climb (tiers floor : Nat) : Honest (climb operand tiers floor) := by
  induction tiers generalizing floor with
  | zero => rwa [climb]
  | succ tiers ih =>
    have := honest_operators operand ih
    rw [climb]
    refine .seq inferInstance inferInstance fun r => ?_
    split <;> infer_instance

instance : Honest (exprOf operand) := honest_climb operand _ _

end

lemma honest_operand (levels : Nat) : Honest (operand levels) := by
  induction levels with
  | zero => exact inferInstanceAs (Honest tooDeep)
  | succ levels ih =>
    have : Honest
        (node .unaryExpr (advance .expr >>= fun _ => operand levels >>= fun _ => pure ())) :=
      .inNode (by decide) inferInstance inferInstance
    rw [operand]
    infer_instance

instance (levels : Nat) : Honest (expr levels) := by
  have := honest_operand levels
  unfold expr
  infer_instance

/-! ### Lines -/

instance (levels : Nat) (mode : Mode) : Honest (interpolation levels mode) := by
  have := reportsOwed_advanceTo interpolationEnds (by decide)
  unfold interpolation interpolationEnd
  exact .inNode (by decide) inferInstance inferInstance

instance (levels : Nat) (first : Mode) (found : Bool) : Honest (textStep levels first found) := by
  refine .peekKind fun s hg hq ht => ?_
  generalize (if found = true then Mode.text else first) = mode
  split
  · exact Honest.tidy hg hq ht
  · exact Honest.tidy hg hq ht
  · exact Honest.tidy hg hq ht
  · next hk => exact .of_reported (ReportsOwed.reported hg hq (.inr hk))
  · exact ht

instance (levels : Nat) (first : Mode) : Honest (lineText levels first) := by
  unfold lineText
  exact .inNodeIf (by decide) inferInstance inferInstance

instance (levels : Nat) : Honest (lineCondition levels) := by
  unfold lineCondition conditionRest
  exact .inNode (by decide) inferInstance inferInstance

instance : Honest hashtag := by
  unfold hashtag
  exact .inNode (by decide) inferInstance inferInstance

instance : Honest hashtags := by
  unfold hashtags
  infer_instance

instance (levels : Nat) : Honest (lineRest levels) := by
  unfold lineRest
  refine .seq inferInstance inferInstance fun _ => ?_
  dsimp only
  split
  · refine .seq inferInstance inferInstance fun command => ?_
    split <;> infer_instance
  · infer_instance

instance (levels : Nat) (first : Mode) : Honest (line levels first) := by
  rw [line]
  dsimp only
  exact .inNode (by decide) inferInstance inferInstance

/-! ### Commands -/

instance : Honest commandStart := by
  unfold commandStart
  infer_instance

instance : Honest commandClose := by
  unfold commandClose
  infer_instance

instance : Honest commandVariable := by
  unfold commandVariable
  infer_instance

instance : Honest eatEquals := by
  unfold eatEquals
  infer_instance

section
variable (levels : Nat)

instance : Honest (setCommand levels) := by
  unfold setCommand setValue
  dsimp only
  exact .inNode (by decide) inferInstance inferInstance

instance (range : Range) (problem : Option (GrammarError × String)) :
    Honest (reportAt range problem) where
  tidy s _ _ ht := by
    rcases problem with _ | ⟨e, m⟩
    · exact ht
    · exact tidy_report ht range e m

instance : Honest (callCommand levels) := by
  rw [callCommand]
  have : Honest (callTarget levels) := by
    unfold callTarget
    infer_instance
  exact .inNode (by decide) inferInstance inferInstance

instance : Honest (declareCommand levels) := by
  have : Honest (node .typeClause (advance .command >>= fun _ => name nameRecovery)) :=
    .inNode (by decide) inferInstance inferInstance
  unfold declareCommand declareValue typeClause
  dsimp only
  exact .inNode (by decide) inferInstance inferInstance

instance : Honest (jumpCommand levels) := by
  unfold jumpCommand jumpTarget
  exact .inNode (by decide) inferInstance inferInstance

instance : Honest returnCommand := by
  unfold returnCommand
  exact .inNode (by decide) inferInstance inferInstance

instance (found : Bool) : Honest (freeStep levels found) := by
  refine .seq inferInstance inferInstance fun k => ?_
  split <;> infer_instance

instance : Honest (freeCommand levels) := by
  unfold freeCommand freeText freeRest
  dsimp only
  exact .inNode (by decide) inferInstance inferInstance

instance (keyword : Kind) : Honest (strayClause keyword) := by
  unfold strayClause
  dsimp only
  infer_instance

instance : Honest (enumCase levels) := by
  unfold enumCase
  dsimp only
  exact .inNode (by decide) inferInstance inferInstance

instance (cases : Nat) : Honest (caseLine levels cases) := by
  unfold caseLine caseOr
  infer_instance

lemma honest_caseBlock (nesting : Nat) : Honest (caseBlock levels nesting) := by
  induction nesting with
  | zero =>
    rw [caseBlock]
    infer_instance
  | succ nesting ih =>
    have hreads := reading_caseBlock levels nesting
    have hstep (cases : Nat) : Honest (caseStep levels (caseBlock levels nesting) cases) := by
      refine .seq inferInstance inferInstance fun k => ?_
      rcases caseStepAt_cases levels cases k with ⟨-, hk⟩ | ⟨-, hk⟩ | ⟨-, hk⟩ <;> rw [hk]
      · infer_instance
      · exact .seq ⟨hreads⟩ ih fun _ => inferInstance
      · infer_instance
    rw [caseBlock]
    refine .inNode (by decide) ⟨reading_caseRun levels hreads⟩
      (.seq inferInstance inferInstance fun _ => ?_)
    have hsteps := reading_caseStep levels hreads
    exact .seq ⟨.loop hsteps 0⟩ (.loop hsteps hstep 0) fun _ => inferInstance

instance : Honest (casesHere levels) :=
  ⟨fun s hg hq ht => (honest_caseBlock levels s.scanner.rest.length).tidy hg hq ht⟩

instance (cases : Nat) : Honest (enumStep levels cases) := by
  have : Readable (casesHere levels) := ⟨reading_casesHere levels⟩
  have (k : Kind) : Honest (enumStepAt levels cases k) := by
    unfold enumStepAt caseOr
    split <;> infer_instance
  unfold enumStep
  infer_instance

lemma closes_closeWith (keyword : Kind) {kind : Kind} (hk : Tree.Ordinary kind) (message : String) :
    HonestKind (closeWith keyword kind message) where
  tidy s hg hq ht := by
    have hlook := hg.look .statement
    have hquiet : (s.look .statement).Quiet := ⟨hq.never, hq.running⟩
    rw [closeWith, answer_bind, after_bind, hg.answer_peekCommand, hg.after_peekCommand]
    split
    · refine ⟨Honest.tidy hlook hquiet ht, .inl ?_⟩
      rwa [answer_bind, answer_bind, answer_pure]
    · refine ⟨Honest.tidy hlook hquiet ht, .inr ?_⟩
      rw [after_bind, after_pure]
      exact owes_errorOf .statement hlook hquiet _ message

instance : HonestOrOwes (enumCommand levels) := by
  have := closes_closeWith .endenumKw (show Tree.Ordinary .enumStmt by decide)
    "expected `<<endenum>>`"
  unfold enumCommand enumHead enumName enumTail enumCases
  infer_instance

end

/-! ### Statements -/

lemma TidyOrOwes.look {s : ParserState} (h : TidyOrOwes s) : TidyOrOwes (s.look .statement) :=
  h.imp id fun ho => ho.look (.inl rfl)

/-- Nothing is owed at a token that is no error. -/
lemma TidyOrOwes.tidy {s : ParserState} (h : TidyOrOwes s)
    (hk : s.kindAt .statement ≠ .errorToken) :
    s.Tidy := by
  rcases h with h | h | h
  · exact h
  · exact .of_reported h
  · exact absurd h hk

lemma tidyOrOwes_nothingTaken {s : ParserState} (hg : s.Good) (hq : s.Quiet) (h : TidyOrOwes s) :
    TidyOrOwes (nothingTaken.after s) := by
  have hreported :=
    AlwaysReports.reported (p := error .statement "expected a statement" >>= fun _ =>
    node .error (advance .statement)) (hg.look .statement) ⟨hq.never, hq.running⟩
  by_cases hk : s.kindAt .statement = .eof
  · simpa [nothingTaken, hg, hk] using h.look
  · refine .inl (.of_reported ?_)
    simpa [nothingTaken, hg, hk] using hreported

section
variable (statement : KindSet → Parser Unit) [∀ t, Rule (statement t)]
  [∀ t, HonestOrOwes (statement t)]
  [∀ t, ReportsOwed .statement (statement t)] (terminators : KindSet)

omit [∀ t, Rule (statement t)] in
/-- A statement makes the report that the one before it owes. -/
lemma tidyOrOwes_statement {s : ParserState} (hg : s.Good) (hq : s.Quiet) (h : TidyOrOwes s) :
    TidyOrOwes ((statement terminators).after s) := by
  rcases h with h | h
  · exact HonestOrOwes.tidyOrOwes hg hq h
  · exact .inl (.of_reported (ReportsOwed.reported hg hq h))

lemma tidyOrOwes_statementStep {s : ParserState} (hg : s.Good) (hq : s.Quiet) (h : TidyOrOwes s) :
    TidyOrOwes ((statementStep terminators statement).after s) := by
  have hf := Rule.follows (statement terminators) hg
  have hu := tidyOrOwes_statement statement terminators hg hq h
  rw [statementStep, Parser.after, run_ifStuck]
  split
  · exact tidyOrOwes_nothingTaken hf.good (hf.quiet hq) hu
  · exact hu

/-- A run of statements ends where nothing is owed. -/
lemma tidyOrOwes_listStep {s : ParserState} (hg : s.Good) (hq : s.Quiet) (h : TidyOrOwes s) :
    ((listStep terminators statement).answer s = .done () ∧
      ((listStep terminators statement).after s).Tidy) ∨
    ((listStep terminators statement).answer s = .yield () ∧
      TidyOrOwes ((listStep terminators statement).after s)) := by
  obtain ⟨hafter, hends⟩ := run_endsStatements terminators hg
  rw [listStep, answer_bind, after_bind, (Quiet.poll hq).1, (Quiet.poll hq).2, if_neg (by simp),
    answer_bind, after_bind, hafter]
  split
  · next hc =>
    refine .inl ⟨rfl, h.tidy ?_⟩
    rcases hends.1 hc with (hk | hk | hk | hk) | ⟨hk, -⟩ <;> simp [hk]
  · exact .inr ⟨answer_statementStep terminators statement _,
      tidyOrOwes_statementStep statement terminators (hg.look _) ⟨hq.never, hq.running⟩ h.look⟩

instance : Honest (statementList statement terminators) where
  tidy s hg hq ht := by
    have hstep : ∀ ⦃_ : Unit⦄ ⦃v : ParserState⦄, v.Good ∧ v.Quiet ∧ TidyOrOwes v → ∀ ⦃b⦄,
        (listStep terminators statement).answer v = .yield b →
          ((listStep terminators statement).after v).scanner.budget < v.scanner.budget ∧
          ((listStep terminators statement).after v).Good ∧
          ((listStep terminators statement).after v).Quiet ∧
          TidyOrOwes ((listStep terminators statement).after v) := by
      rintro a v ⟨h1, h2, h3⟩ b hb
      have hf := Rule.follows (listStep terminators statement) h1
      refine ⟨(advances_listStep terminators statement (a := a) h1 trivial hb).1, hf.good,
        hf.quiet h2, ?_⟩
      rcases tidyOrOwes_listStep statement terminators h1 h2 h3 with ⟨h, -⟩ | ⟨-, h⟩
      · rw [h] at hb
        simp at hb
      · exact h
    obtain ⟨_, u, ⟨h1, h2, h3⟩, h4, h5⟩ :=
      loop_ends (a := ()) (I := fun _ u => u.Good ∧ u.Quiet ∧ TidyOrOwes u) hstep ⟨hg, hq, .inl ht⟩
    rw [statementList, after_bind, after_pure, h5]
    rcases tidyOrOwes_listStep statement terminators h1 h2 h3 with ⟨-, h⟩ | ⟨h, -⟩
    · exact h
    · rw [h] at h4
      simp at h4

/-! ### Blocks, groups and chains -/

instance : Honest (block statement) := by
  unfold block
  exact .inNode (by decide) inferInstance inferInstance

variable (levels : Nat)

lemma honest_groupItem (mode : Mode) {kind : Kind} (hk : Tree.Ordinary kind) :
    Honest (groupItem levels statement mode kind) := by
  unfold groupItem itemHead itemBlock
  dsimp only
  exact .inNode hk inferInstance inferInstance

instance (lineGroup : Bool) (mode : Mode) : Honest (groupTail lineGroup mode) := by
  unfold groupTail
  infer_instance

instance (lineGroup : Bool) (mode : Mode) : Honest (groupStep statement levels lineGroup mode) := by
  have hkind : Tree.Ordinary (if lineGroup then .lineGroupItem else .shortcutOption) := by
    cases lineGroup <;> decide
  exact .seq inferInstance (honest_groupItem statement levels mode hkind) fun _ =>
    .withState fun _ => inferInstance

instance (lineGroup : Bool) : Honest (group levels statement lineGroup) := by
  unfold group
  refine .inNode ?_ inferInstance inferInstance
  cases lineGroup <;> decide

instance : Honest (clauseBody statement terminators) := by
  unfold clauseBody
  infer_instance

lemma honest_clause {kind : Kind} (hk : Tree.Ordinary kind) (conditional : Bool) :
    Honest (clause levels statement kind conditional terminators) := by
  unfold clause clauseCommand
  dsimp only
  exact .inNode hk inferInstance inferInstance

instance : Honest (onceClause levels statement terminators) := by
  unfold onceClause onceCommand
  dsimp only
  exact .inNode (by decide) inferInstance inferInstance

omit [∀ t, Rule (statement t)] [∀ t, HonestOrOwes (statement t)]
  [∀ t, ReportsOwed .statement (statement t)] in
instance (afterElse : Bool) (message : String) : Honest (ambiguous afterElse message) := by
  unfold ambiguous
  infer_instance

instance (afterElse : Bool) : Honest (ifStep statement levels terminators afterElse) := by
  have := honest_clause statement terminators levels
    (show Tree.Ordinary .elseIfClause by decide) true
  have := honest_clause statement terminators levels
    (show Tree.Ordinary .elseClause by decide) false
  unfold ifStep
  refine .seq inferInstance inferInstance fun keyword => ?_
  split <;> infer_instance

instance (afterElse : Bool) : Honest (onceStep statement levels terminators afterElse) := by
  have := honest_clause statement terminators levels
    (show Tree.Ordinary .onceElseClause by decide) false
  unfold onceStep
  infer_instance

instance : HonestOrOwes (ifStatement levels statement terminators) := by
  have := honest_clause statement (terminators.union ifTerminators) levels
    (show Tree.Ordinary .ifClause by decide) true
  have := closes_closeWith .endifKw (show Tree.Ordinary .ifStmt by decide) "expected `<<endif>>`"
  unfold ifStatement
  infer_instance

instance : HonestOrOwes (onceStatement levels statement terminators) := by
  have := closes_closeWith .endonceKw (show Tree.Ordinary .onceStmt by decide)
    "expected `<<endonce>>`"
  unfold onceStatement
  infer_instance

/-! ### All statements -/

/-- Which command stands next does not change what is hidden. -/
lemma HonestOrOwes.peekCommand {f : Option Kind → Parser Unit}
    (h : ∀ keyword, HonestOrOwes (f keyword)) :
    HonestOrOwes (peekCommand .statement >>= f) :=
  inferInstance

instance : HonestOrOwes (command levels statement terminators) := by
  unfold command
  refine .peekCommand fun keyword => ?_
  split <;> infer_instance

lemma honestOrOwes_statementOf : HonestOrOwes (statementOf levels statement terminators) where
  tidyOrOwes s hg hq ht := by
    have hlook := hg.look .statement
    have hquiet : (s.look .statement).Quiet := ⟨hq.never, hq.running⟩
    rw [statementOf, after_bind, hg.answer_peekKind, hg.after_peekKind]
    split
    case h_5 hk =>
      exact .inl (.of_reported
        (ReportsOwed.reported (p := skipLine .statement >>= fun _ => eatNewline) hlook
        hquiet (.inr ((kindAt_look s _).trans hk))))
    all_goals exact HonestOrOwes.tidyOrOwes hlook hquiet ht

omit [∀ t, HonestOrOwes (statement t)] [∀ t, ReportsOwed .statement (statement t)] in
lemma reportsOwed_statementOf :
    ReportsOwed .statement (statementOf levels statement terminators) := by
  refine .peekKind (fun k => ?_)
    (inferInstanceAs (ReportsOwed .statement (skipLine .statement >>= fun _ => eatNewline)))
  split
  case h_2 => exact ⟨reading_group statement levels false⟩
  case h_3 => exact ⟨reading_group statement levels true⟩
  all_goals infer_instance

end

lemma tidyOrOwes_statements (levels : Nat) :
    (∀ terminators, HonestOrOwes (statement levels terminators)) ∧
    ∀ terminators, ReportsOwed .statement (statement levels terminators) := by
  induction levels with
  | zero =>
    refine ⟨fun _ => ?_, fun _ => ?_⟩ <;> rw [statement] <;> infer_instance
  | succ levels ih =>
    have := ih.1
    have := ih.2
    refine ⟨fun _ => ?_, fun _ => ?_⟩ <;> rw [statement]
    · exact honestOrOwes_statementOf _ _ _
    · exact reportsOwed_statementOf _ _ _

instance (levels : Nat) (terminators : KindSet) : HonestOrOwes (statement levels terminators) :=
  (tidyOrOwes_statements levels).1 terminators

instance (levels : Nat) (terminators : KindSet) :
    ReportsOwed .statement (statement levels terminators) :=
  (tidyOrOwes_statements levels).2 terminators

end Parser

end DialogueScript
