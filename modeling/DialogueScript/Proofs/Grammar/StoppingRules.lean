import DialogueScript.Proofs.Grammar.Stopping

/-!
Every rule of the grammar can be stopped. Only runs of statements, groups, enums and the children of
the root ask whether to go on; all others inherit it from what they are made of.
-/

set_option synthInstance.maxSize 4096

namespace DialogueScript

namespace Parser

open ParserState

/-! ### Recovery -/

section
variable (mode : Mode) (message : String)

instance (recovery : KindSet) : Stoppable (errorRecover mode message recovery) := by
  unfold errorRecover
  infer_instance

instance : Stoppable advanceLine := by
  unfold advanceLine
  infer_instance

instance (ends : KindSet) : Stoppable (advanceTo ends) := by
  unfold advanceTo
  infer_instance

instance : Stoppable (skipLine mode) := by
  unfold skipLine
  infer_instance

instance : Stoppable (errorLine mode message) := by
  unfold errorLine
  infer_instance

instance : Stoppable eatNewline := by
  unfold eatNewline
  infer_instance

instance : Stoppable (endOfLine mode) := by
  unfold endOfLine
  infer_instance

instance : Stoppable (commandEnd mode) := by
  unfold commandEnd
  infer_instance

instance (recovery : KindSet) : Stoppable (name recovery) := by
  unfold name
  infer_instance

end

lemma Stoppable.reportAt (range : Range) {problem : Option (GrammarError × String)}
    (h : ∀ e m, problem = some (e, m) → e ≠ .cancelled) : Stoppable (reportAt range problem) := by
  rcases problem with _ | ⟨e, m⟩
  · exact .pure ()
  · exact .errorAt range (h e m rfl) m

/-! ### Expressions -/

instance : Stoppable tooDeep := by
  have (opened : Nat) : Stoppable (deepStep opened) := by
    unfold deepStep
    infer_instance
  unfold tooDeep
  infer_instance

instance : Stoppable variableExpr := by
  unfold variableExpr
  infer_instance

instance : Stoppable memberName := by
  unfold memberName
  infer_instance

instance (kind : Kind) : Stoppable (literalExpr kind) := by
  unfold literalExpr
  infer_instance

section
variable (expr : Parser (Option Kind)) [Stoppable expr]

instance : Stoppable (argList expr) := by
  have : Stoppable (argStep expr) := by
    unfold argStep argEnd
    infer_instance
  unfold argList
  infer_instance

instance : Stoppable (wordExpr expr) := by
  have : Stoppable wordKind := by
    unfold wordKind
    refine .seq inferInstance fun _ => .seq inferInstance fun k => ?_
    split <;> infer_instance
  unfold wordExpr wordTail
  infer_instance

instance : Stoppable (primaryExpr expr) := by
  unfold primaryExpr
  refine .seq inferInstance fun k => ?_
  unfold primaryAt parens
  split <;> infer_instance

end

section
variable (operand : Parser (Option Kind)) [Stoppable operand]

lemma stoppable_climb (tiers floor : Nat) : Stoppable (climb operand tiers floor) := by
  induction tiers generalizing floor with
  | zero => rwa [climb]
  | succ tiers ih =>
    have (whole : Kind) : Stoppable (operatorStep (climb operand tiers) floor whole) := by
      refine .seq inferInstance fun k => ?_
      split <;> infer_instance
    have (first : Kind) : Stoppable (operators (climb operand tiers) floor first) := by
      unfold operators
      infer_instance
    rw [climb]
    refine .seq inferInstance fun r => ?_
    split <;> infer_instance

instance : Stoppable (exprOf operand) := stoppable_climb operand _ _

end

instance stoppable_operand (levels : Nat) : Stoppable (operand levels) := by
  induction levels with
  | zero => exact inferInstanceAs (Stoppable tooDeep)
  | succ levels ih =>
    rw [operand]
    infer_instance

instance (levels : Nat) : Stoppable (expr levels) := by
  unfold expr
  infer_instance

/-! ### Lines -/

section
variable (levels : Nat)

instance (mode : Mode) : Stoppable (interpolation levels mode) := by
  unfold interpolation interpolationEnd
  infer_instance

instance (first : Mode) : Stoppable (lineText levels first) := by
  have (found : Bool) : Stoppable (textStep levels first found) := by
    unfold textStep
    refine .seq inferInstance fun k => ?_
    split <;> infer_instance
  unfold lineText
  exact .nodeIf inferInstance

instance : Stoppable (lineCondition levels) := by
  unfold lineCondition conditionRest
  infer_instance

instance : Stoppable hashtag := by
  unfold hashtag
  infer_instance

instance : Stoppable hashtags := by
  unfold hashtags
  infer_instance

instance : Stoppable (lineRest levels) := by
  unfold lineRest
  refine .seq inferInstance fun _ => ?_
  dsimp only
  split
  · refine .seq inferInstance fun command => ?_
    split <;> infer_instance
  · infer_instance

instance (first : Mode) : Stoppable (line levels first) := by
  rw [line]
  dsimp only
  infer_instance

end

/-! ### Commands -/

instance : Stoppable commandStart := by
  unfold commandStart
  infer_instance

instance : Stoppable commandClose := by
  unfold commandClose
  infer_instance

instance : Stoppable commandVariable := by
  unfold commandVariable
  infer_instance

instance : Stoppable eatEquals := by
  unfold eatEquals
  infer_instance

instance (keyword kind : Kind) (message : String) : Stoppable (closeWith keyword kind message) := by
  have := Stoppable.errorOf .statement (e := .missingEndMarker) (by decide) message
  unfold closeWith
  infer_instance

instance (keyword : Kind) : Stoppable (strayClause keyword) := by
  unfold strayClause
  dsimp only
  infer_instance

section
variable (levels : Nat)

instance : Stoppable (setCommand levels) := by
  unfold setCommand setValue
  dsimp only
  infer_instance

lemma callProblem_ne_cancelled {kind : Option Kind} {e : GrammarError} {m : String}
    (h : callProblem kind = some (e, m)) : e ≠ .cancelled := by
  unfold callProblem at h
  split at h
  · simp at h
  · simp at h
  · rintro rfl
    simp at h

instance : Stoppable (callCommand levels) := by
  have (range : Range) (kind : Option Kind) : Stoppable (reportAt range (callProblem kind)) :=
    .reportAt range fun _ _ => callProblem_ne_cancelled
  rw [callCommand]
  unfold callTarget
  infer_instance

instance : Stoppable (declareCommand levels) := by
  unfold declareCommand declareValue typeClause
  dsimp only
  infer_instance

instance : Stoppable (jumpCommand levels) := by
  unfold jumpCommand jumpTarget
  infer_instance

instance : Stoppable returnCommand := by
  unfold returnCommand
  infer_instance

instance : Stoppable (freeCommand levels) := by
  have (found : Bool) : Stoppable (freeStep levels found) := by
    unfold freeStep
    refine .seq inferInstance fun k => ?_
    split <;> infer_instance
  unfold freeCommand freeText freeRest
  dsimp only
  infer_instance

instance : Stoppable (enumCase levels) := by
  unfold enumCase
  dsimp only
  infer_instance

instance stoppable_caseBlock (nesting : Nat) : Stoppable (caseBlock levels nesting) := by
  induction nesting with
  | zero =>
    rw [caseBlock]
    infer_instance
  | succ nesting ih =>
    have (cases : Nat) : Stoppable (caseStep levels (caseBlock levels nesting) cases) := by
      refine .seq inferInstance fun k => ?_
      rcases caseStepAt_cases levels cases k with ⟨-, hk⟩ | ⟨-, hk⟩ | ⟨-, hk⟩ <;> rw [hk]
      · infer_instance
      · infer_instance
      · unfold caseLine caseOr
        infer_instance
    rw [caseBlock]
    unfold caseRun
    infer_instance

instance : Stoppable (enumCommand levels) := by
  have : Stoppable (casesHere levels) :=
    .withState (fun s => stoppable_caseBlock levels s.scanner.rest.length) fun _ => rfl
  have (cases : Nat) : Stoppable (enumStep levels cases) := by
    have (k : Kind) : Stoppable (enumStepAt levels cases k) := by
      unfold enumStepAt caseOr
      split <;> infer_instance
    unfold enumStep
    infer_instance
  unfold enumCommand enumHead enumName enumTail enumCases
  infer_instance

end

/-! ### Statements -/

section
variable (terminators : KindSet) (statement : KindSet → Parser Unit) [∀ t, Stoppable (statement t)]

instance : Stoppable (endsStatements terminators) := by
  unfold endsStatements
  refine .seq inferInstance fun k => ?_
  split <;> infer_instance

instance : Stoppable (statementList statement terminators) := by
  have : Stoppable nothingTaken := by
    unfold nothingTaken
    infer_instance
  have : Stoppable (statementStep terminators statement) := by
    unfold statementStep ifStuck
    infer_instance
  have : Stoppable (listStep terminators statement) := by
    unfold listStep
    infer_instance
  unfold statementList
  infer_instance

instance : Stoppable (block statement) := by
  unfold block
  infer_instance

end

section
variable (statement : KindSet → Parser Unit) [∀ t, Stoppable (statement t)] (levels : Nat)
  (terminators : KindSet)

instance (mode : Mode) (kind : Kind) : Stoppable (groupItem levels statement mode kind) := by
  unfold groupItem itemHead itemBlock
  dsimp only
  infer_instance

instance (lineGroup : Bool) : Stoppable (group levels statement lineGroup) := by
  have (mode : Mode) : Stoppable (groupTail lineGroup mode) := by
    unfold groupTail
    infer_instance
  have (mode : Mode) : Stoppable (groupStep statement levels lineGroup mode) :=
    .seq inferInstance fun _ => .withState (fun _ => inferInstance) fun _ => rfl
  unfold group
  infer_instance

instance : Stoppable (clauseBody statement terminators) := by
  unfold clauseBody
  infer_instance

instance (kind : Kind) (conditional : Bool) :
    Stoppable (clause levels statement kind conditional terminators) := by
  unfold clause clauseCommand
  dsimp only
  infer_instance

instance : Stoppable (onceClause levels statement terminators) := by
  unfold onceClause onceCommand
  dsimp only
  infer_instance

instance (afterElse : Bool) (message : String) : Stoppable (ambiguous afterElse message) := by
  have := Stoppable.errorOf .statement (e := .unresolvedAmbiguity) (by decide) message
  unfold ambiguous
  infer_instance

instance : Stoppable (ifStatement levels statement terminators) := by
  have (terminators : KindSet) (afterElse : Bool) :
      Stoppable (ifStep statement levels terminators afterElse) := by
    unfold ifStep
    refine .seq inferInstance fun keyword => ?_
    split <;> infer_instance
  unfold ifStatement
  infer_instance

instance : Stoppable (onceStatement levels statement terminators) := by
  have (terminators : KindSet) (afterElse : Bool) :
      Stoppable (onceStep statement levels terminators afterElse) := by
    unfold onceStep
    infer_instance
  unfold onceStatement
  infer_instance

instance : Stoppable (command levels statement terminators) := by
  unfold command
  refine .seq inferInstance fun keyword => ?_
  split <;> infer_instance

instance : Stoppable (statementOf levels statement terminators) := by
  unfold statementOf
  refine .seq inferInstance fun k => ?_
  split <;> infer_instance

end

instance stoppable_statement (levels : Nat) (terminators : KindSet) :
    Stoppable (statement levels terminators) := by
  induction levels generalizing terminators with
  | zero =>
    rw [statement]
    infer_instance
  | succ levels ih =>
    rw [statement]
    infer_instance

/-! ### Nodes -/

instance : Stoppable titleHeader := by
  unfold titleHeader titleRest
  infer_instance

instance : Stoppable whenHeader := by
  have : Stoppable whenCondition := by
    unfold whenCondition
    refine @Stoppable.node _ _ _ (.seq inferInstance fun k => ?_)
    unfold conditionAt
    split <;> infer_instance
  unfold whenHeader
  infer_instance

instance : Stoppable genericHeader := by
  unfold genericHeader headerRest
  infer_instance

instance : Stoppable nodeHeaders := by
  have (titles : Nat) : Stoppable (headerStep titles) := by
    have := Stoppable.errorOf .header (e := .duplicateTitle) (by decide)
      "a node can only have one `title` header"
    refine .seq inferInstance fun k => ?_
    unfold headerAt
    split <;> infer_instance
  have (range : Range) (titles : Nat) : Stoppable (reportAt range (titleProblem titles)) := by
    refine .reportAt range fun e m h => ?_
    unfold titleProblem at h
    split at h
    · rintro rfl
      simp at h
    · simp at h
  unfold nodeHeaders
  unfold headers
  infer_instance

instance : Stoppable body := by
  have := Stoppable.errorOf .statement (e := .missingEndMarker) (by decide) "expected `===`"
  have : Stoppable bodyStep := by
    unfold bodyStep
    infer_instance
  unfold body bodyHead bodyStatements bodyClose
  infer_instance

instance : Stoppable dialogueNode := by
  have : Stoppable nodeTail := by
    unfold nodeTail
    infer_instance
  rw [dialogueNode]
  infer_instance

instance : Stoppable fileHashtag := by
  unfold fileHashtag
  infer_instance

instance : Stoppable strayLine := by
  unfold strayLine
  infer_instance

instance (nodes : Nat) (kind : Kind) : Stoppable (itemAt nodes kind) := by
  unfold itemAt child
  infer_instance

instance (nodes : Nat) : Stoppable (itemStep nodes) := by
  unfold itemStep
  infer_instance

/-- **The children of the root can be stopped**, at any poll. -/
instance : Stoppable items := by
  unfold items
  infer_instance

lemma polls_poll {s : ParserState} (hc : s.cancelled = false) {n : Nat} (hn : s.cancelAt = some n) :
    (poll.after s).polls = s.polls + 1 := by
  unfold Parser.after poll
  by_cases h : n ≤ s.polls + 1
  · simp [hn, hc, h]
    rfl
  · simp [hn, hc, h]
    rfl

/-- The reader is asked before the first child of the root. -/
lemma polls_items {s : ParserState} (hg : s.Good) (hc : s.cancelled = false) {n : Nat}
    (hn : s.cancelAt = some n) : s.polls < (items.after s).polls := by
  have hpoll : s.polls < (poll.after s.mark).polls := by
    rw [polls_poll (s := s.mark) hc hn]
    exact Nat.lt_succ_self _
  have hafter : (itemStep 0).after s = (if poll.answer s.mark then pure (.done 0)
      else peekKind .header >>= itemAt 0 : Parser _).after (poll.after s.mark) := rfl
  have hstep : (poll.after s.mark).polls ≤ ((itemStep 0).after s).polls := by
    rw [hafter]
    exact (Stoppable.onward (Rule.good poll hg.mark)).polls
  have hloop : ((itemStep 0).after s).polls ≤ (items.after s).polls :=
    (Stoppable.onward_loop (fun _ => inferInstance) hg 0).polls
  omega

end Parser

end DialogueScript
