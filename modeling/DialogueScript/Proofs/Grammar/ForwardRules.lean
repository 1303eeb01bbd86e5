import DialogueScript.Proofs.Grammar.Strides

/-!
All statements, bodies and nodes move forward. A statement starts where the last line was taken with
its end, and leaves the parser at such a place again, whether or not reading has been cancelled.
-/

set_option synthInstance.maxSize 512

namespace DialogueScript

namespace Parser

open ParserState
open Scanner (Sees LineOver Calm)

variable {α β σ : Type}

/-! ### Lines -/

section
variable (levels : Nat)

lemma triple_lineText (first : Mode) :
    Triple (Sees first (· ≠ .dedent)) (lineText levels first) (TextAt first) := by
  unfold lineText
  have hloop := Triple.loop (triple_textStep levels first) (fun _ _ h => h) false
  exact .nodeIf hloop

lemma triple_line :
    Triple (Sees .statement (· ≠ .dedent)) (line levels .statement) fun _ => LineOver := by
  refine .endsLine (Q := fun _ => Calm) ?_
  rw [line]
  refine .node _ (.bind (triple_lineText levels .statement) fun found => ?_)
  dsimp only
  cases found
  · exact .bind (.error (K := (· ≠ .dedent)) _) fun _ => .of_calm (.flat _)
  · exact .flat (lineRest levels)

lemma triple_skipLine :
    Triple (Sees .statement (· ≠ .dedent)) (skipLine .statement) fun _ => Calm := by
  unfold skipLine isAtLineEnd
  simp only [bind_assoc, pure_bind]
  refine .peekKind fun k hk => .ite (fun _ => ?_) fun _ => ?_
  · exact .node _ (.bind (.at_kind (.advance _) hk) fun _ => .flat _)
  · exact .at_kind (.of_calm (.flat _)) hk

/-- A line of a body that is passed over. -/
lemma triple_passLine : Triple (Sees .statement fun k => k ≠ .newline ∧ k ≠ .dedent)
    (skipLine .statement >>= fun _ => eatNewline) fun _ => LineOver := by
  intro s hg hs
  have hforward := (((triple_skipLine).bind fun _ => .flat eatNewline) hg hs.2).1
  exact ⟨hforward, (ended_skipLine hg (.inr hs.1)).kind_ne (hforward.good hg) .statement rfl rfl⟩

lemma triple_errorLine (m : String) [Listed m messages] :
    Triple (Sees .statement fun k => k ≠ .newline ∧ k ≠ .dedent)
      (errorLine .statement m >>= fun _ => eatNewline) fun _ => LineOver := by
  unfold errorLine
  rw [bind_assoc]
  exact .bind (.error m) fun _ => triple_passLine

end

/-! ### Commands -/

lemma triple_commandStart : Triple (Sees .statement (· ≠ .dedent)) commandStart fun _ => Calm :=
  .bind (.advance .statement) fun _ => .flat _

/-- A command whose `<<` and keyword are taken first. -/
lemma Triple.command {k : Kind} {f : Unit → Parser α} (hf : ∀ a, Flat (f a)) :
    Triple (Sees .statement (· = .commandStart)) (Parser.node k (commandStart >>= f)) fun _ =>
      Calm :=
  .at_kind (.node k (.bind triple_commandStart fun a => have := hf a; .flat _)) (by simp)

section
variable (levels : Nat)

lemma triple_setCommand :
    Triple (Sees .statement (· = .commandStart)) (setCommand levels) fun _ => LineOver := by
  refine .endsLine (Q := fun _ => Calm) ?_
  unfold setCommand setValue
  dsimp only
  exact .command inferInstance

instance : Flat (callTarget levels) := by
  refine .ranged rfl inferInstance fun kind e m h => ?_
  unfold callProblem at h
  split at h
  · simp at h
  · simp at h
  · obtain ⟨-, rfl⟩ : _ ∧ _ := by simpa using h
    exact Listed.mem

lemma triple_callCommand :
    Triple (Sees .statement (· = .commandStart)) (callCommand levels) fun _ => LineOver := by
  refine .endsLine (Q := fun _ => Calm) ?_
  rw [callCommand]
  exact .command inferInstance

instance : Flat (declareValue levels) := by
  unfold declareValue typeClause
  exact .seq inferInstance fun _ => .optional inferInstance fun _ => .seq inferInstance fun _ =>
    .seq inferInstance fun _ => .optional inferInstance fun _ => inferInstance

lemma triple_declareCommand :
    Triple (Sees .statement (· = .commandStart)) (declareCommand levels) fun _ => LineOver := by
  refine .endsLine (Q := fun _ => Calm) ?_
  rw [declareCommand]
  exact .command inferInstance

lemma triple_jumpCommand :
    Triple (Sees .statement (· = .commandStart)) (jumpCommand levels) fun _ => LineOver := by
  refine .endsLine (Q := fun _ => Calm) ?_
  unfold jumpCommand jumpTarget
  exact .command inferInstance

lemma triple_returnCommand :
    Triple (Sees .statement (· = .commandStart)) returnCommand fun _ => LineOver := by
  refine .endsLine (Q := fun _ => Calm) ?_
  unfold returnCommand
  exact .command inferInstance

lemma triple_freeCommand :
    Triple (Sees .statement (· = .commandStart)) (freeCommand levels) fun _ => LineOver := by
  refine .endsLine (Q := fun _ => Calm) ?_
  unfold freeCommand freeText freeRest
  dsimp only
  exact .at_kind (.node _ (.bind (.advance _) fun _ => .flat _)) (by simp)

instance : EndsLine
    (node .error (advance .statement >>= fun _ => advanceLine) >>= fun _ => eatNewline) where
  ended s hg := by
    have hu := Rule.good (advance .statement) (good_start hg)
    rw [after_bind, after_node, after_bind]
    exact ended_eatNewline (good_complete (Rule.good advanceLine hu) _) (kindAt_advanceLine hu)

lemma triple_strayClause (keyword : Kind) :
    Triple (Sees .statement (· = .commandStart)) (strayClause keyword) fun _ => LineOver := by
  have hrest : Triple (Sees .statement (· = .commandStart))
      (node .error (advance .statement >>= fun _ => advanceLine) >>= fun _ => eatNewline)
      fun _ => LineOver :=
    .endsLine (.at_kind (.bind (.node _ (.bind (.advance _) fun _ => .flat _)) fun _ => .flat _)
      (by simp))
  unfold strayClause
  dsimp only
  split <;> exact .bind (.error _) fun _ => hrest

lemma triple_closeWith (keyword kind : Kind) (message : String) [Listed message messages] :
    Triple LineOver (closeWith keyword kind message) fun _ => LineOver := by
  unfold closeWith
  refine .peekCommand (.ite (by simp) fun _ => ?_) fun found _ => .ite (fun _ => ?_) fun _ => ?_
  · exact .bind (.errorOf _ message) fun _ => .pure fun _ h => h
  · refine .endsLine (.at_kind (.bind triple_commandStart fun _ => .flat _) (by simp))
  · exact .bind (.errorOf _ message) fun _ => .pure fun _ (h : Sees _ _ _) => h.trans_ne (by simp)

end

/-! ### Blocks of cases and enums -/

/-- A block is closed at its end, or an error is reported there. -/
lemma triple_inBlock {p : Parser α} (f : α → β) (hp : Triple LineOver p fun _ => LineOver) :
    Triple (Sees .statement (· = .indent))
      (node .block (advance .statement >>= fun _ => p >>= fun a =>
      expect .statement .dedent "expected the end of the indented block" >>= fun _ => pure (f a)))
      fun _ => LineOver := by
  intro s hg hk
  have hs := good_start hg
  have hk' : s.start.kindAt .statement = .indent := hk
  have htake := hs.take .statement
  have hat : AtLine (s.start.take .statement) := atLine_take hs (.inl hk)
  have hopen : Forward s.start (s.start.take .statement) :=
    .take .statement (.refl _) (by simp [hk']) (by simp [hk'])
  obtain ⟨hinner, hover⟩ := hp htake (hat.kind_ne htake .statement rfl rfl)
  have hforward := hopen.trans hinner
  have hu := hforward.good hs
  simp only [after_node, after_bind, after_pure, hs.after_advance, if_neg (show
    s.start.kindAt .statement ≠ .eof by simp [hk'])]
  generalize p.after (s.start.take .statement) = u at hforward hover hu
  rw [Good.after_expect hu .statement (by simp)]
  split
  · next hd =>
    exact ⟨.block (.refl s) hforward hd,
      (atLine_take hu (.inr hd)).kind_ne (hu.take _) .statement rfl rfl⟩
  · have hlook : (u.look .statement).kindAt .statement ≠ .newline := by rwa [kindAt_look]
    have hreport : Triple LineOver (error .statement "expected the end of the indented block")
        fun _ => LineOver := .error _
    obtain ⟨herror, hover'⟩ := hreport (hu.look .statement) hlook
    exact ⟨.node _ (.refl s) (hforward.trans (.trans (.look _ (.refl u)) herror)), hover'⟩

section
variable (levels : Nat)

lemma triple_enumCase :
    Triple (Sees .statement (· = .commandStart)) (enumCase levels) fun _ => LineOver := by
  refine .endsLine (Q := fun _ => Calm) ?_
  unfold enumCase
  dsimp only
  exact .command inferInstance

lemma triple_caseLine (cases : Nat) : Triple (Sees .statement fun k => k ≠ .newline ∧ k ≠ .dedent)
    (caseLine levels cases) fun _ => LineOver := by
  have herror : Triple (Sees .statement fun k => k ≠ .newline ∧ k ≠ .dedent)
      (errorLine .statement "only `<<case>>` lines are allowed in an enum" >>= fun _ =>
        eatNewline >>= fun _ => pure (.yield cases : ForInStep Nat)) fun _ => LineOver := by
    rw [← bind_assoc]
    exact .bind (triple_errorLine _) fun _ => .pure fun _ h => h
  unfold caseLine caseOr
  refine .peekCommand (.ite (by simp) fun _ => herror) fun keyword _ =>
    .ite (fun _ => ?_) fun _ => ?_
  · exact .bind (triple_enumCase levels) fun _ => .pure fun _ h => h
  · exact herror.weaken (fun _ h => ⟨h.trans_ne (by simp), h.trans_ne (by simp)⟩) fun _ _ h => h

lemma triple_caseBlock (nesting : Nat) :
    Triple (Sees .statement (· = .indent)) (caseBlock levels nesting) fun _ => LineOver := by
  induction nesting with
  | zero =>
    rw [caseBlock]
    exact .pure fun _ h => h.trans_ne (by simp)
  | succ nesting ih =>
    rw [caseBlock]
    refine triple_inBlock id (.loop (I := fun _ => LineOver) (fun cases => .peekKind fun k hk => ?_)
      (fun _ _ h => h) 0)
    rcases caseStepAt_cases levels cases k with ⟨-, heq⟩ | ⟨rfl, heq⟩ | ⟨hends, heq⟩ <;> rw [heq]
    · exact .pure fun _ h => h.trans_ne hk
    · exact .bind ih fun _ => .pure fun _ h => h
    · refine (triple_caseLine levels cases).weaken (fun _ h => ?_) fun next _ h => ?_
      · exact ⟨h.trans_ne hk, h.trans_ne fun hd => hends (.inr (.inr (.inr hd)))⟩
      · cases next <;> exact h

lemma triple_casesHere :
    Triple (Sees .statement (· = .indent)) (casesHere levels) fun _ => LineOver :=
  fun s hg hs => triple_caseBlock levels s.scanner.rest.length hg hs

lemma triple_enumStep (cases : Nat) :
    Triple LineOver (enumStep levels cases) (OrDone (fun _ => LineOver) fun _ => LineOver) := by
  refine .bind .poll fun stop => .ite (fun _ => .pure fun _ h => h) fun _ =>
    .peekKind fun k hk => ?_
  unfold enumStepAt caseOr
  split
  · exact .bind (triple_casesHere levels) fun _ => .pure fun _ h => h
  · refine .peekCommand (.ite (by simp) fun _ => .pure fun _ h => h.trans_ne hk) fun keyword _ =>
      .ite (fun _ => ?_) fun _ => .pure fun _ h => h.trans_ne hk
    exact .bind (triple_enumCase levels) fun _ => .pure fun _ h => h
  · exact .pure fun _ h => h.trans_ne hk

instance : EndsLine enumHead := by
  unfold enumHead enumName
  infer_instance

instance : Flat enumName := by
  unfold enumName
  infer_instance

lemma triple_enumCommand :
    Triple (Sees .statement (· = .commandStart)) (enumCommand levels) fun _ => LineOver := by
  have hhead : Triple (Sees .statement (· = .commandStart)) enumHead fun _ => LineOver :=
    .endsLine (.at_kind (.bind triple_commandStart fun _ => .flat _) (by simp))
  rw [enumCommand]
  refine .bind (.nodeOf (.bind hhead fun _ => ?_)) fun _ => .pure fun _ h => h
  have hcases : Triple LineOver (enumCases levels) fun _ => LineOver :=
    .bind (.loop (triple_enumStep levels) (fun _ _ h => h) 0) fun cases =>
      .ite (fun _ => .error _) fun _ => .pure fun _ h => h
  exact .bind hcases fun _ => triple_closeWith _ _ _

end

/-! ### Runs of statements -/

/-- Where a statement can start: the last line was taken with its end, and the statements do not
end. -/
def StartsStatement (k : Kind) : Prop := k ≠ .newline ∧ ¬ endsBlock k

lemma StartsStatement.ne_dedent {k : Kind} (h : StartsStatement k) : k ≠ .dedent :=
  fun hk => h.2 (.inr (.inr (.inr hk)))

/-- A rule for statements that moves forward, and moves the position. -/
structure Moving (statement : KindSet → Parser Unit) : Prop where
  triple : ∀ terminators, Triple (Sees .statement StartsStatement) (statement terminators) fun _ =>
    LineOver
  moves : ∀ terminators ⦃s : ParserState⦄, s.Good → StartsStatement (s.kindAt .statement) →
    s.scanner.Before ((statement terminators).after s).scanner

section
variable {statement : KindSet → Parser Unit} (hst : Moving statement) (terminators : KindSet)

lemma triple_endsStatements : Triple LineOver (endsStatements terminators) fun ends s =>
    LineOver s ∧ (ends = false → Sees .statement StartsStatement s) := by
  intro s hg hs
  obtain ⟨hafter, hends⟩ := run_endsStatements terminators hg
  have hkind : (s.look .statement).kindAt .statement = s.kindAt .statement := kindAt_look s _
  have hover : (s.look .statement).kindAt .statement ≠ .newline := hkind ▸ hs
  rw [hafter]
  refine ⟨.look _ (.refl s), hover, fun hfalse => ⟨hover, fun hk => ?_⟩⟩
  have := hends.2 (.inl (hkind ▸ hk))
  simp [this] at hfalse

include hst

/-- A statement that moves the position is not taken for one that took nothing. -/
lemma triple_statementStep : Triple (Sees .statement StartsStatement)
    (statementStep terminators statement) (OrDone (fun _ => LineOver) fun _ => LineOver) := by
  intro s hg hs
  have hne := (hst.moves terminators hg hs).ne'
  rw [statementStep, Parser.after, Parser.answer, run_ifStuck, if_neg hne]
  exact hst.triple terminators hg hs

lemma triple_listStep : Triple LineOver (listStep terminators statement)
    (OrDone (fun _ => LineOver) fun _ => LineOver) := by
  refine .bind .poll fun stop => .ite (fun _ => .pure fun _ h => h) fun _ =>
    .bind (triple_endsStatements terminators) fun ends =>
      .ite (fun _ => .pure fun _ h => h.1) fun hends => ?_
  exact (triple_statementStep hst terminators).weaken (fun _ h => h.2 (by simpa using hends))
    fun _ _ h => h

lemma triple_statementList :
    Triple LineOver (statementList statement terminators) fun _ => LineOver := by
  unfold statementList
  exact .bind (.loop (fun _ => triple_listStep hst terminators) (fun _ _ h => h) ()) fun _ =>
    .pure fun _ h => h

lemma triple_block : Triple (Sees .statement (· = .indent)) (block statement) fun _ => LineOver :=
  triple_inBlock (fun _ => ()) (triple_statementList hst .empty)

/-! ### Groups -/

lemma triple_itemBlock : Triple LineOver (itemBlock statement) fun _ => LineOver := by
  unfold itemBlock
  refine .isAt fun k hk => .ite (fun hindent => ?_) fun _ => .pure fun _ h => h.trans_ne hk
  obtain rfl : k = .indent := by simpa using hindent
  exact .bind (triple_block hst) fun _ => .pure fun _ h => h

omit hst in
lemma triple_lookAhead (mode : Mode) (kind : Kind) : Triple LineOver (isAt mode kind) fun found s =>
    LineOver s ∧ (found = true → Sees mode (· = kind) s) := by
  intro s hg hs
  rw [hg.after_isAt, hg.answer_isAt]
  refine ⟨.look mode (.refl s), ?_, fun h => (kindAt_look s mode).trans (by simpa using h)⟩
  change (s.look mode).kindAt .statement ≠ .newline
  rwa [kindAt, (Idle.look s mode).ahead .statement rfl]

omit hst in
lemma triple_blankLine (mode : Mode) :
    Triple (Sees mode (· = .blankLine)) (advance mode) fun _ => LineOver := by
  intro s hg hs
  have hk : s.kindAt mode = .blankLine := hs
  have hat : AtLine (s.take mode) := .inl ((hg.scanner.takes mode).of_structural
    (hg.scanner.toSane.settle mode) (by rw [← kindAt, hk]; rfl)).1
  rw [hg.after_advance, if_neg (by simp [hk])]
  exact ⟨.take mode (.refl s) (by simp [hk]) (by simp [hk]),
    hat.kind_ne (hg.take mode) .statement rfl rfl⟩

omit hst in
/-- The next item of a group is looked for where the last one was taken with its end. -/
lemma triple_groupTail (lineGroup : Bool) {mode : Mode} (hm : mode.isIndentSensitive = true) :
    Triple LineOver (groupTail lineGroup mode)
      (OrDone (fun mode s => mode.isIndentSensitive = true ∧
      Sees mode (· = arrowOf lineGroup) s ∧ LineOver s) fun _ => LineOver) := by
  have heat : Triple LineOver (eat mode .blankLine) fun _ => LineOver := by
    refine .bind (triple_lookAhead mode .blankLine) fun found => .ite (fun hfound => ?_) fun _ =>
      .pure fun _ h => h.1
    exact .bind ((triple_blankLine mode).weaken (fun _ h => h.2 hfound) fun _ _ h => h) fun _ =>
      .pure fun _ h => h
  refine .bind heat fun blank => .ite (fun _ => .pure fun _ h => h) fun _ =>
    .bind .poll fun stop => .ite (fun _ => .pure fun _ h => h) fun _ =>
    .bind (triple_lookAhead mode _) fun found => .ite (fun hfound => ?_) fun _ =>
      .pure fun _ h => h.1
  exact .pure fun _ h => ⟨hm, h.2 hfound, h.1⟩

variable (levels : Nat)

lemma triple_groupItem (lineGroup : Bool) (mode : Mode) (kind : Kind) :
    Triple (Sees mode (· = arrowOf lineGroup)) (groupItem levels statement mode kind) fun _ =>
      LineOver := by
  have hline : Triple Calm (line levels .text) fun _ => LineOver := .endsLine (.flat _)
  have harrow : arrowOf lineGroup ≠ .dedent := by
    rcases arrowOf_cases lineGroup with h | h <;> simp [h]
  rw [groupItem]
  exact .node _ (.bind (.bind (.at_kind (.advance mode) harrow) fun _ => hline) fun _ =>
    triple_itemBlock hst)

lemma triple_group (lineGroup : Bool) :
    Triple (Sees .statement (· = arrowOf lineGroup)) (group levels statement lineGroup)
      fun _ => LineOver := by
  have harrow : arrowOf lineGroup ≠ .newline := by
    rcases arrowOf_cases lineGroup with h | h <;> simp [h]
  unfold group
  refine .node _ (.bind (Q := fun _ => LineOver) ?_ fun _ => .pure fun _ h => h)
  refine (Triple.loop (I := fun mode s => mode.isIndentSensitive = true ∧
    Sees mode (· = arrowOf lineGroup) s ∧ LineOver s) (fun mode => ?_) (fun _ _ h => h.2.2)
    Mode.statement).weaken (fun _ h => ⟨rfl, h, h.trans_ne harrow⟩) fun _ _ h => h
  unfold groupStep
  refine .bind
    ((triple_groupItem hst levels lineGroup mode _).weaken (fun _ h => h.2.1) fun _ _ h => h)
    fun hadBlock s hg hs => ?_
  rw [after_get_bind, answer_get_bind]
  exact triple_groupTail lineGroup (itemMode_sensitive _) hg hs

/-! ### Chains -/

lemma triple_clause (kind : Kind) (conditional : Bool) :
    Triple (Sees .statement (· = .commandStart))
    (clause levels statement kind conditional terminators) fun _ => LineOver := by
  have hends : EndsLine (clauseHead levels conditional) := by
    unfold clauseHead clauseCommand
    dsimp only
    infer_instance
  have hhead : Triple (Sees .statement (· = .commandStart)) (clauseHead levels conditional)
      fun _ => LineOver := by
    refine .endsLine (Q := fun _ => Calm) ?_
    unfold clauseHead clauseCommand
    rw [bind_assoc]
    exact .at_kind (.bind triple_commandStart fun _ => .flat _) (by simp)
  rw [clause_eq]
  exact .node _ (.bind hhead fun _ => triple_statementList hst terminators)

lemma triple_onceClause : Triple (Sees .statement (· = .commandStart))
    (onceClause levels statement terminators) fun _ => LineOver := by
  have hends : EndsLine (onceHead levels) := by
    unfold onceHead onceCommand
    dsimp only
    infer_instance
  have hhead : Triple (Sees .statement (· = .commandStart)) (onceHead levels) fun _ =>
      LineOver := by
    refine .endsLine (Q := fun _ => Calm) ?_
    unfold onceHead onceCommand
    rw [bind_assoc]
    exact .at_kind (.bind triple_commandStart fun _ => .flat _) (by simp)
  rw [onceClause_eq]
  exact .node _ (.bind hhead fun _ => triple_statementList hst terminators)

omit hst in
lemma triple_ambiguous {K : Kind → Prop} (afterElse : Bool) (message : String)
    [Listed message messages] :
    Triple (Sees .statement K) (ambiguous afterElse message) fun _ => Sees .statement K := by
  unfold ambiguous
  exact .ite (fun _ => .errorOf _ message) fun _ => .pure fun _ h => h

lemma triple_ifStep (afterElse : Bool) :
    Triple LineOver (ifStep statement levels terminators afterElse)
    (OrDone (fun _ => LineOver) fun _ => LineOver) := by
  have hclause (kind : Kind) (conditional next : Bool) (message : String)
      [Listed message messages] :
      Triple (Sees .statement (· = .commandStart)) (ambiguous afterElse message >>= fun _ =>
        clause levels statement kind conditional terminators >>= fun _ => pure (.yield next))
        (OrDone (fun _ => LineOver) fun _ => LineOver) :=
    .bind (triple_ambiguous afterElse message) fun _ =>
      .bind (triple_clause hst terminators levels kind conditional) fun _ => .pure fun _ h => h
  unfold ifStep
  refine .peekCommand (.pure fun _ h => h) fun keyword hk => ?_
  split
  · exact hclause _ _ _ _
  · exact hclause _ _ _ _
  · exact .pure fun _ h => h.trans_ne hk

lemma triple_onceStep (afterElse : Bool) :
    Triple LineOver (onceStep statement levels terminators afterElse)
    (OrDone (fun _ => LineOver) fun _ => LineOver) := by
  unfold onceStep
  refine .peekCommand (.ite (by simp) fun _ => .pure fun _ h => h) fun keyword hk =>
    .ite (fun _ => ?_) fun _ => .pure fun _ h => h.trans_ne hk
  exact .bind (triple_ambiguous afterElse _) fun _ =>
    .bind (triple_clause hst terminators levels _ _) fun _ => .pure fun _ h => h

lemma triple_ifStatement : Triple (Sees .statement (· = .commandStart))
    (ifStatement levels statement terminators) fun _ => LineOver := by
  unfold ifStatement
  refine .bind (.nodeOf (.bind (triple_clause hst _ levels _ _) fun _ => ?_)) fun _ =>
    .pure fun _ h => h
  exact .bind (.loop (triple_ifStep hst _ levels) (fun _ _ h => h) false) fun _ =>
    triple_closeWith _ _ _

lemma triple_onceStatement : Triple (Sees .statement (· = .commandStart))
    (onceStatement levels statement terminators) fun _ => LineOver := by
  unfold onceStatement
  refine .bind (.nodeOf (.bind (triple_onceClause hst _ levels) fun _ => ?_)) fun _ =>
    .pure fun _ h => h
  exact .bind (.loop (triple_onceStep hst _ levels) (fun _ _ h => h) false) fun _ =>
    triple_closeWith _ _ _

/-! ### All statements -/

lemma triple_command : Triple (Sees .statement (· = .commandStart))
    (command levels statement terminators) fun _ => LineOver := by
  have hfree := triple_freeCommand levels
  unfold command
  refine .peekCommand hfree fun keyword _ => ?_
  split
  · exact triple_ifStatement hst terminators levels
  · exact triple_onceStatement hst terminators levels
  · exact triple_setCommand levels
  · exact triple_callCommand levels
  · exact triple_declareCommand levels
  · exact triple_jumpCommand levels
  · exact triple_jumpCommand levels
  · exact triple_returnCommand
  · exact triple_enumCommand levels
  · exact .ite (fun _ => triple_strayClause _) fun _ => hfree
  · exact hfree

lemma triple_statementOf : Triple (Sees .statement StartsStatement)
    (statementOf levels statement terminators) fun _ => LineOver := by
  unfold statementOf
  refine .peekKind fun k hk => ?_
  split
  · exact triple_block hst
  · exact triple_group hst levels false
  · exact triple_group hst levels true
  · exact triple_command hst terminators levels
  · exact triple_passLine.weaken (fun _ h => ⟨h.trans_ne hk.1, h.trans_ne hk.ne_dedent⟩)
      fun _ _ h => h
  · exact .at_kind (triple_line levels) hk.ne_dedent

end

/-- **Every statement** moves forward, and moves the position. -/
theorem moving_statement (levels : Nat) : Moving (statement levels) := by
  have hmoves : ∀ (levels : Nat) (terminators : KindSet) ⦃s : ParserState⦄, s.Good →
      StartsStatement (s.kindAt .statement) →
      s.scanner.Before ((statement levels terminators).after s).scanner :=
    fun levels terminators s hg h => offset_lt_statement levels terminators hg h.1 h.2
  induction levels with
  | zero =>
    refine ⟨fun terminators => ?_, hmoves 0⟩
    rw [statement]
    exact (triple_errorLine _).weaken (fun _ h => ⟨h.1, h.ne_dedent⟩) fun _ _ h => h
  | succ levels ih =>
    refine ⟨fun terminators => ?_, hmoves (levels + 1)⟩
    rw [statement]
    exact triple_statementOf ih terminators levels

/-! ### Bodies and nodes -/

/-- The end of a block that is not open here stands alone in an error. -/
lemma triple_strayEnd : Triple (Sees .statement (· = .dedent))
    (node .error (error .statement "unexpected end of block" >>= fun _ => advance .statement))
    fun _ => LineOver := by
  intro s hg hk
  have hs := good_start hg
  have hreport : Triple (Sees .statement (· = .dedent)) (error .statement "unexpected end of block")
      fun _ => Sees .statement (· = .dedent) := .error _
  obtain ⟨hforward, hk'⟩ := hreport hs hk
  have hu := hforward.good hs
  have hinner := congrArg Forest.inner (Good.errorOf_keeps hs .statement .unexpectedToken
    "unexpected end of block").2
  rw [← error] at hinner
  rw [after_node, after_bind]
  generalize (error .statement "unexpected end of block").after s.start = u
    at hforward hk' hu hinner
  have hkind : u.kindAt .statement = .dedent := hk'
  rw [hu.after_advance, if_neg (by simp [hkind])]
  exact ⟨.stray (.refl s) hforward hk' hinner,
    (atLine_take hu (.inr hk')).kind_ne (hu.take _) .statement rfl rfl⟩

lemma triple_isCancelled {P : Scanner → Prop} : Triple P isCancelled fun _ => P :=
  fun s _ hs => ⟨.refl s, hs⟩

lemma triple_bodyStep :
    Triple LineOver bodyStep (OrDone (fun _ => LineOver) fun _ => LineOver) := by
  refine .bind (triple_statementList (moving_statement maxDepth) .empty) fun _ =>
    .bind triple_isCancelled fun stop => .ite (fun _ => .pure fun _ h => h) fun _ =>
    .isAt fun k hk => ?_
  by_cases hd : k = .dedent
  · subst hd
    exact .bind triple_strayEnd fun _ => .pure fun _ h => h
  · rw [decide_eq_false hd]
    exact .pure fun _ h => h.trans_ne hk

lemma triple_bodyStatements : Triple LineOver bodyStatements fun _ => LineOver := by
  unfold bodyStatements
  exact .bind (.loop (fun _ => triple_bodyStep) (fun _ _ h => h) ()) fun _ => .pure fun _ h => h

lemma triple_bodyClose : Triple LineOver bodyClose fun _ _ => True := by
  have heat : Triple LineOver (eat .statement .bodyEnd) fun found s =>
      (found = true → Calm s) ∧ (found = false → LineOver s) := by
    unfold eat
    refine .isAt fun k hk => ?_
    by_cases hend : k = .bodyEnd
    · subst hend
      exact .bind (.at_kind (.advance _) (by simp)) fun _ => .pure fun _ h => ⟨fun _ => h, by simp⟩
    · rw [decide_eq_false hend]
      exact .pure fun _ h => ⟨by simp, fun _ => h.trans_ne hk⟩
  refine .bind heat fun found => .ite (fun h => ?_) fun h => ?_
  · exact (Triple.flat (endOfLine .header >>= fun _ => pure true)).weaken (fun _ hs => hs.1 h)
      fun _ _ _ => trivial
  · exact .bind ((Triple.errorOf _ _).weaken (fun _ hs => hs.2 (by simpa using h)) fun _ _ h => h)
      fun _ => .pure fun _ _ => trivial

instance : EndsLine bodyHead := by
  unfold bodyHead
  infer_instance

lemma triple_body : Triple Calm body fun _ _ => True := by
  unfold body
  exact .node _ (.bind (.endsLine (.flat bodyHead)) fun _ =>
    .bind triple_bodyStatements fun _ => triple_bodyClose)

lemma triple_nodeTail : Triple Calm nodeTail fun _ _ => True := by
  unfold nodeTail
  refine .bind (.flat _) fun found => .ite (fun _ => ?_) fun _ => ?_
  · exact .bind triple_body fun closed => .ite (fun _ => .pure fun _ _ => trivial) fun _ =>
      .pure fun _ _ => trivial
  · exact .bind (.flat _) fun _ => .pure fun _ _ => trivial

lemma triple_child (k : Kind) : Triple Calm (child k) fun _ _ => True := by
  unfold child
  refine .ite (fun _ => (Triple.flat fileHashtag).weaken (fun _ h => h) fun _ _ _ => trivial)
    fun _ =>
    .ite (fun _ => ?_) fun _ => (Triple.flat strayLine).weaken (fun _ h => h) fun _ _ _ => trivial
  rw [dialogueNode]
  exact .bind (.nodeOf (.bind (.flat nodeHeaders) fun _ => triple_nodeTail)) fun _ =>
    .pure fun _ _ => trivial

end Parser

end DialogueScript
