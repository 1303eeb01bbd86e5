import DialogueScript.Proofs.Grammar.Recorded

/-!
Lines, commands, statements and scripts keep the discipline of the record.
-/

set_option synthInstance.maxSize 4096

namespace DialogueScript

namespace Parser

open ParserState

namespace Recorded

/-! ### Lines -/

section
variable (levels : Nat)

instance : Recorded interpolationEnd := by
  unfold interpolationEnd
  infer_instance

instance (mode : Mode) : Recorded (interpolation levels mode) := by
  unfold interpolation
  exact .node (by simp) _

instance (first : Mode) (found : Bool) : Recorded (textStep levels first found) := by
  unfold textStep
  refine .seq inferInstance fun k => ?_
  split <;> infer_instance

instance (first : Mode) : Recorded (lineText levels first) := .nodeIf (by simp) _

instance : Recorded (lineCondition levels) := by
  have : Recorded (conditionRest levels) := by
    unfold conditionRest
    infer_instance
  unfold lineCondition
  exact .node (by simp) _

instance : Recorded hashtags := by
  have : Recorded hashtag := by
    unfold hashtag
    exact .node (by simp) _
  unfold hashtags
  infer_instance

instance : Recorded (lineRest levels) := by
  unfold lineRest
  refine .seq inferInstance fun _ => ?_
  dsimp only
  split
  · refine .seq inferInstance fun k => ?_
    split <;> infer_instance
  · infer_instance

instance (first : Mode) : Recorded (line levels first) := by
  unfold line
  exact .node (by simp) _

/-! ### Commands -/

instance : Recorded commandStart := by
  unfold commandStart
  infer_instance

instance : Recorded commandClose := by
  unfold commandClose
  infer_instance

instance : Recorded commandVariable := by
  unfold commandVariable
  infer_instance

instance : Recorded (setCommand levels) := by
  unfold setCommand setValue
  exact .node (by simp) _

instance : Recorded (callCommand levels) := by
  unfold callCommand callTarget
  exact .node (by simp) _

instance : Recorded eatEquals := by
  unfold eatEquals
  infer_instance

instance : Recorded (declareCommand levels) := by
  have : Recorded typeClause := by
    unfold typeClause
    exact .node (by simp) _
  unfold declareCommand declareValue
  exact .node (by simp) _

instance : Recorded (jumpCommand levels) := by
  unfold jumpCommand jumpTarget
  exact .node (by simp) _

instance : Recorded returnCommand := .node (by simp) _

instance (found : Bool) : Recorded (freeStep levels found) := by
  unfold freeStep
  refine .seq inferInstance fun k => ?_
  split <;> infer_instance

instance : Recorded (freeCommand levels) := by
  unfold freeCommand freeText freeRest
  exact .node (by simp) _

instance (keyword kind : Kind) (m : String) : Recorded (closeWith keyword kind m) := by
  unfold closeWith
  infer_instance

lemma answer_closeWith_ne {keyword kind : Kind} (hk : kind ≠ .tombstone) (m : String)
    (s : ParserState) :
    (closeWith keyword kind m).answer s ≠ .tombstone := by
  rw [closeWith, answer_bind, answer_ite]
  split
  · rwa [answer_bind, answer_bind, answer_pure]
  · simp

instance (keyword : Kind) : Recorded (strayClause keyword) := by
  unfold strayClause
  infer_instance

/-! ### Enums -/

instance : Recorded (enumCase levels) := by
  unfold enumCase
  exact .node (by simp) _

lemma caseOr (cases : Nat) (other : Parser (ForInStep Nat)) [Recorded other] :
    Recorded (Parser.caseOr levels cases other) := by
  unfold Parser.caseOr
  infer_instance

instance (cases : Nat) : Recorded (caseLine levels cases) := by
  unfold caseLine
  exact caseOr ..

instance (nesting : Nat) : Recorded (caseBlock levels nesting) := by
  induction nesting with
  | zero => exact inferInstanceAs (Recorded (pure 0))
  | succ nesting ih =>
    have (cases : Nat) : Recorded (caseStep levels (caseBlock levels nesting) cases) := by
      refine .seq inferInstance fun k => ?_
      unfold caseStepAt
      split <;> infer_instance
    unfold caseBlock caseRun
    exact .node (by simp) _

instance : Recorded (enumCommand levels) := by
  have : Recorded (casesHere levels) := .seq inferInstance fun _ => inferInstance
  have (cases : Nat) : Recorded (enumStep levels cases) := by
    have (k : Kind) : Recorded (enumStepAt levels cases k) := by
      unfold enumStepAt
      split
      · infer_instance
      · exact caseOr ..
      · infer_instance
    unfold enumStep
    infer_instance
  have : Recorded enumHead := by
    unfold enumHead enumName
    infer_instance
  have : Recorded (enumTail levels) := by
    unfold enumTail enumCases
    infer_instance
  unfold enumCommand
  refine .seq (.nodeOf _ fun s => ?_) fun _ => inferInstance
  rw [answer_bind, enumTail, answer_bind]
  exact answer_closeWith_ne (by simp) _ _

end

/-! ### Runs of statements -/

instance (terminators : KindSet) : Recorded (endsStatements terminators) := by
  unfold endsStatements
  refine .seq inferInstance fun k => ?_
  split <;> infer_instance

section
variable (levels : Nat) (statement : KindSet → Parser Unit) [∀ t, Recorded (statement t)]
  (terminators : KindSet)

instance : Recorded (statementList statement terminators) := by
  have : Recorded nothingTaken := by
    unfold nothingTaken
    infer_instance
  have : Recorded (listStep terminators statement) := by
    unfold listStep statementStep
    infer_instance
  unfold statementList
  infer_instance

instance : Recorded (block statement) := by
  unfold block
  exact .node (by simp) _

lemma groupItem (mode : Mode) {kind : Kind} (hk : kind ≠ .tombstone) :
    Recorded (Parser.groupItem levels statement mode kind) := by
  unfold Parser.groupItem itemHead itemBlock
  exact .node hk _

instance (lineGroup : Bool) : Recorded (group levels statement lineGroup) := by
  have (mode : Mode) : Recorded (Parser.groupItem levels statement mode
      (if lineGroup then .lineGroupItem else .shortcutOption)) :=
    groupItem levels statement mode (by cases lineGroup <;> simp)
  have (mode : Mode) : Recorded (groupStep statement levels lineGroup mode) := by
    unfold groupStep groupTail
    infer_instance
  unfold group
  exact .node (by cases lineGroup <;> simp) _

lemma clause (kind : Kind) (hk : kind ≠ .tombstone) (conditional : Bool) :
    Recorded (Parser.clause levels statement kind conditional terminators) := by
  unfold Parser.clause clauseCommand clauseBody
  exact .node hk _

instance : Recorded (onceClause levels statement terminators) := by
  unfold onceClause onceCommand clauseBody
  exact .node (by simp) _

instance (afterElse : Bool) (m : String) : Recorded (ambiguous afterElse m) := by
  unfold ambiguous
  infer_instance

instance : Recorded (ifStatement levels statement terminators) := by
  have hclause := clause levels statement (terminators.union ifTerminators)
  have := hclause .ifClause (by simp) true
  have := hclause .elseIfClause (by simp) true
  have := hclause .elseClause (by simp) false
  have (afterElse : Bool) :
      Recorded (ifStep statement levels (terminators.union ifTerminators) afterElse) := by
    unfold ifStep
    refine .seq inferInstance fun k => ?_
    split <;> infer_instance
  unfold ifStatement
  refine .seq (.nodeOf _ fun s => ?_) fun _ => inferInstance
  rw [answer_bind, answer_bind]
  exact answer_closeWith_ne (by simp) _ _

instance : Recorded (onceStatement levels statement terminators) := by
  have := clause levels statement (terminators.union onceTerminators) .onceElseClause
    (by simp) false
  have (afterElse : Bool) :
      Recorded (onceStep statement levels (terminators.union onceTerminators) afterElse) := by
    unfold onceStep
    infer_instance
  unfold onceStatement
  refine .seq (.nodeOf _ fun s => ?_) fun _ => inferInstance
  rw [answer_bind, answer_bind]
  exact answer_closeWith_ne (by simp) _ _

/-! ### All statements -/

instance : Recorded (command levels statement terminators) := by
  unfold command
  refine .seq inferInstance fun k => ?_
  split <;> infer_instance

instance : Recorded (statementOf levels statement terminators) := by
  unfold statementOf
  refine .seq inferInstance fun k => ?_
  split <;> infer_instance

end

instance (levels : Nat) (terminators : KindSet) : Recorded (statement levels terminators) := by
  induction levels generalizing terminators with
  | zero =>
    unfold statement
    infer_instance
  | succ levels ih => exact inferInstanceAs (Recorded (statementOf levels _ terminators))

/-! ### Scripts -/

instance : Recorded titleHeader := by
  unfold titleHeader titleRest
  exact .node (by simp) _

instance : Recorded whenHeader := by
  have (k : Kind) : Recorded (conditionAt k) := by
    unfold conditionAt
    split <;> infer_instance
  have : Recorded whenCondition := by
    unfold whenCondition
    exact .node (by simp) _
  unfold whenHeader
  exact .node (by simp) _

instance : Recorded genericHeader := by
  unfold genericHeader headerRest
  exact .node (by simp) _

instance : Recorded headers := by
  have (titles : Nat) (k : Kind) : Recorded (headerAt titles k) := by
    unfold headerAt
    split <;> infer_instance
  have (titles : Nat) : Recorded (headerStep titles) := by
    unfold headerStep
    infer_instance
  unfold headers
  infer_instance

instance : Recorded body := by
  unfold body bodyHead bodyStatements bodyStep bodyClose
  exact .node (by simp) _

instance : Recorded dialogueNode := by
  have : Recorded nodeHeaders := by
    unfold nodeHeaders
    infer_instance
  have : Recorded nodeTail := by
    unfold nodeTail
    infer_instance
  unfold dialogueNode
  refine .seq (.nodeOf _ fun s => ?_) fun _ => inferInstance
  rw [answer_bind, nodeTail, answer_bind, answer_ite]
  split
  · rw [answer_bind, answer_ite]
    split <;> simp
  · simp

instance (kind : Kind) : Recorded (child kind) := by
  have : Recorded fileHashtag := by
    unfold fileHashtag
    exact .node (by simp) _
  unfold child strayLine
  infer_instance

instance : Recorded items := by
  have (nodes : Nat) : Recorded (itemStep nodes) := by
    unfold itemStep itemAt
    infer_instance
  unfold items
  infer_instance

/-- **A script keeps the discipline.** -/
instance : Recorded script := by
  unfold script scriptTail
  infer_instance

/-- So does a single node. -/
instance : Recorded item := by
  unfold item
  infer_instance

end Recorded

end Parser

end DialogueScript
