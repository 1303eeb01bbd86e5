import DialogueScript.Proofs.Grammar.ForwardRules

/-!
Statements take whole lines: where the last line is over in front of a statement, the last line is
over behind it. A body can only end where a line does, so whatever ends it stands at the start of a
line or behind the last one.
-/

set_option synthInstance.maxSize 512

namespace DialogueScript

namespace Parser

open ParserState

variable {α β σ : Type}

lemma AtLine.look {s : ParserState} (h : AtLine s) (mode : Mode) : AtLine (s.look mode) :=
  Scanner.AtLine.settle h mode

/-- From a place under `P` where the last line is over, a rule leads to such a place again. -/
def TakesLines (P : ParserState → Prop) (p : Parser α) : Prop :=
  ∀ ⦃s⦄, s.Good → AtLine s → P s → (p.after s).Good ∧ AtLine (p.after s)

namespace TakesLines

variable {P P' : ParserState → Prop} {p q : Parser α} {f : α → Parser β} {mode : Mode} {kind : Kind}

lemma weaken (h : TakesLines P p) (hP : ∀ s, P' s → P s) : TakesLines P' p :=
  fun _ hg hs hp => h hg hs (hP _ hp)

lemma pure (a : α) : TakesLines P (Pure.pure a) := fun _ hg hs _ => ⟨hg, hs⟩

lemma bind (hp : TakesLines P p) (hf : ∀ a, TakesLines Any (f a)) : TakesLines P (p >>= f) := by
  intro s hg hs h
  obtain ⟨hg', hs'⟩ := hp hg hs h
  exact hf _ hg' hs' trivial

lemma ite {c : Prop} [Decidable c] (hp : c → TakesLines P p) (hq : ¬ c → TakesLines P q) :
    TakesLines P (if c then p else q) := by
  split
  · exact hp ‹_›
  · exact hq ‹_›

lemma node (k : Kind) (hp : TakesLines Any p) : TakesLines P (Parser.node k p) := by
  intro s hg hs _
  obtain ⟨hg', hs'⟩ := hp (good_start hg) hs trivial
  rw [after_node]
  exact ⟨good_complete hg' k, hs'⟩

lemma nodeOf {p : Parser Kind} (hp : TakesLines Any p) : TakesLines P (Parser.nodeOf p) := by
  intro s hg hs _
  obtain ⟨hg', hs'⟩ := hp (good_start hg) hs trivial
  rw [after_nodeOf]
  exact ⟨good_complete hg' _, hs'⟩

lemma loop {step : σ → Parser (ForInStep σ)} (h : ∀ a, TakesLines Any (step a)) (a : σ) :
    TakesLines P (Parser.loop step a) := by
  have hloop : ∀ n a, TakesLines Any (loopUpTo step n a) := by
    intro n
    induction n with
    | zero => exact .pure
    | succ n ih =>
      intro a
      rw [loopUpTo]
      refine (h a).bind fun next => ?_
      cases next
      · exact .pure _
      · exact ih _
  exact fun s hg hs _ => hloop (s.scanner.budget + 1) a hg hs trivial

/-- A rule that takes its last line with its end. -/
lemma endsLine [Rule p] [EndsLine p] : TakesLines P p :=
  fun _ hg _ _ =>
    have hgood := Rule.good p hg
    ⟨hgood, Scanner.Ended.atLine hgood.scanner.toSane (EndsLine.after p hg)⟩

lemma peekKind {f : Kind → Parser β} (h : ∀ k, TakesLines (·.kindAt mode = k) (f k)) :
    TakesLines P (Parser.peekKind mode >>= f) := by
  intro s hg hs _
  rw [after_bind, hg.answer_peekKind, hg.after_peekKind]
  exact h _ (hg.look mode) (hs.look mode) (kindAt_look s mode)

lemma isAt {f : Bool → Parser β} (ht : TakesLines (·.kindAt mode = kind) (f true))
    (hf : TakesLines Any (f false)) : TakesLines P (Parser.isAt mode kind >>= f) := by
  unfold Parser.isAt
  rw [bind_assoc]
  refine .peekKind fun k => ?_
  by_cases hk : k = kind
  · subst hk
    simpa using ht
  · simpa [hk] using hf.weaken fun _ _ => trivial

lemma peekCommand {f : Option Kind → Parser β} (h : ∀ o, TakesLines Any (f o)) :
    TakesLines P (Parser.peekCommand mode >>= f) := by
  intro s hg hs _
  rw [after_bind, hg.answer_peekCommand, hg.after_peekCommand]
  exact h _ (hg.look mode) (hs.look mode) trivial

lemma errorOf (mode : Mode) (e : GrammarError) (m : String) :
    TakesLines P (Parser.errorOf mode e m) := by
  intro s hg hs _
  refine ⟨Rule.good (Parser.errorOf mode e m) hg, ?_⟩
  rw [AtLine, (Good.errorOf_keeps hg mode e m).1]
  exact hs.look mode

lemma poll : TakesLines P Parser.poll := by
  intro s hg hs _
  refine ⟨Rule.good Parser.poll hg, ?_⟩
  rw [AtLine, scanner_poll]
  exact hs

lemma isCancelled : TakesLines P Parser.isCancelled := fun _ hg hs _ => ⟨hg, hs⟩

/-- Tokens that the indentation asks for are taken at the start of a line. -/
lemma advance (h : ∀ s, P s → (s.kindAt mode).isStructural = true) :
    TakesLines P (Parser.advance mode) := by
  intro s hg hs hp
  refine ⟨Rule.good (Parser.advance mode) hg, ?_⟩
  rw [hg.after_advance]
  split
  · exact hs.look mode
  · exact .inl ((hg.scanner.takes mode).of_structural (hg.scanner.toSane.settle mode) (h s hp)).1

lemma eat (h : kind.isStructural = true) : TakesLines P (Parser.eat mode kind) :=
  .isAt (.bind (.advance fun s hs => by rw [hs, h]) fun _ => .pure _) (.pure _)

lemma expect (h : kind.isStructural = true) (m : String) :
    TakesLines P (Parser.expect mode kind m) := by
  unfold Parser.expect
  exact .bind (.eat h) fun _ => .ite (fun _ => .pure _) fun _ =>
    .bind (.errorOf _ _ _) fun _ => .pure _

end TakesLines

/-! ### Lines and commands -/

lemma takesLines_passLine : TakesLines Any (skipLine .statement >>= fun _ => eatNewline) := by
  intro s hg hs _
  have hgood := Rule.good (skipLine .statement >>= fun _ => eatNewline) hg
  have hended := ended_skipLine hg (.inr (hs.kind_ne hg .statement rfl rfl))
  exact ⟨hgood, Scanner.Ended.atLine hgood.scanner.toSane hended⟩

lemma takesLines_errorLine (m : String) :
    TakesLines Any (errorLine .statement m >>= fun _ => eatNewline) := by
  unfold errorLine
  rw [bind_assoc]
  exact .bind (.errorOf _ _ _) fun _ => takesLines_passLine

lemma takesLines_closeWith (keyword kind : Kind) (message : String) :
    TakesLines Any (closeWith keyword kind message) :=
  .peekCommand fun _ => .ite (fun _ => .endsLine) fun _ => .bind (.errorOf _ _ _) fun _ => .pure _

/-- A block is taken from its start to its end. -/
lemma takesLines_inBlock {p : Parser α} (f : α → β) (hp : TakesLines Any p) :
    TakesLines (·.kindAt .statement = .indent)
      (node .block (advance .statement >>= fun _ => p >>= fun a =>
      expect .statement .dedent "expected the end of the indented block" >>= fun _ =>
        pure (f a))) := by
  have hinner :
    TakesLines (·.kindAt .statement = .indent) (advance .statement >>= fun _ => p >>= fun a =>
      expect .statement .dedent "expected the end of the indented block" >>= fun _ => pure (f a)) :=
    .bind (.advance fun s hs => by rw [hs]; rfl) fun _ => .bind hp fun _ =>
      .bind (.expect rfl _) fun _ => .pure _
  intro s hg hs hk
  obtain ⟨hg', hs'⟩ := hinner (good_start hg) hs hk
  rw [after_node]
  exact ⟨good_complete hg' _, hs'⟩

section
variable (levels : Nat)

lemma takesLines_caseLine (cases : Nat) : TakesLines Any (caseLine levels cases) := by
  have herror : TakesLines Any
      (errorLine .statement "only `<<case>>` lines are allowed in an enum" >>=
      fun _ => eatNewline >>= fun _ => pure (.yield cases : ForInStep Nat)) := by
    rw [← bind_assoc]
    exact .bind (takesLines_errorLine _) fun _ => .pure _
  exact .peekCommand fun _ => .ite (fun _ => .endsLine) fun _ => herror

lemma takesLines_caseBlock (nesting : Nat) :
    TakesLines (·.kindAt .statement = .indent) (caseBlock levels nesting) := by
  induction nesting with
  | zero =>
    rw [caseBlock]
    exact .pure _
  | succ nesting ih =>
    rw [caseBlock]
    refine takesLines_inBlock id (.loop (fun cases => .peekKind fun k => ?_) 0)
    rcases caseStepAt_cases levels cases k with ⟨-, heq⟩ | ⟨rfl, heq⟩ | ⟨-, heq⟩ <;> rw [heq]
    · exact .pure _
    · exact .bind ih fun _ => .pure _
    · exact (takesLines_caseLine levels cases).weaken fun _ _ => trivial

lemma takesLines_enumStep (cases : Nat) : TakesLines Any (enumStep levels cases) := by
  refine .bind .poll fun _ => .ite (fun _ => .pure _) fun _ => .peekKind fun k => ?_
  unfold enumStepAt caseOr
  split
  · exact .bind (fun s hg hs hk => takesLines_caseBlock levels s.scanner.rest.length hg hs hk)
      fun _ => .pure _
  · exact .peekCommand fun _ => .ite (fun _ => .endsLine) fun _ => .pure _
  · exact .pure _

lemma takesLines_enumCommand : TakesLines Any (enumCommand levels) := by
  rw [enumCommand]
  refine .bind (.nodeOf (.bind .endsLine fun _ => ?_)) fun _ => .pure _
  have hcases : TakesLines Any (enumCases levels) :=
    .bind (.loop (takesLines_enumStep levels) 0) fun cases =>
      .ite (fun _ => .errorOf _ _ _) fun _ => .pure _
  exact .bind hcases fun _ => takesLines_closeWith _ _ _

end

/-! ### Statements -/

/-- A rule for statements that moves, and takes whole lines. -/
structure Lines (statement : KindSet → Parser Unit) : Prop where
  takes : ∀ terminators,
    TakesLines (fun s => ¬ endsBlock (s.kindAt .statement)) (statement terminators)
  moves : ∀ terminators ⦃s : ParserState⦄, s.Good → StartsStatement (s.kindAt .statement) →
    s.scanner.Before ((statement terminators).after s).scanner

section
variable {statement : KindSet → Parser Unit} (hst : Lines statement) (terminators : KindSet)
  (levels : Nat)
include hst

/-- A statement that starts behind the end of a line is not taken for one that took nothing. -/
lemma takesLines_statementStep : TakesLines (fun s => ¬ endsBlock (s.kindAt .statement))
    (statementStep terminators statement) := by
  intro s hg hs hk
  have hne := (hst.moves terminators hg ⟨hs.kind_ne hg .statement rfl rfl, hk⟩).ne'
  rw [statementStep, Parser.after, run_ifStuck, if_neg hne]
  exact hst.takes terminators hg hs hk

lemma takesLines_listStep : TakesLines Any (listStep terminators statement) := by
  refine .bind .poll fun _ => .ite (fun _ => .pure _) fun _ s hg hs _ => ?_
  obtain ⟨hafter, hends⟩ := run_endsStatements terminators hg
  rw [after_bind, hafter]
  refine TakesLines.ite (P := fun u => u.kindAt .statement = s.kindAt .statement) (fun _ => .pure _)
    (fun hrun => ?_) (hg.look _) (hs.look _) (kindAt_look s _)
  exact (takesLines_statementStep hst terminators).weaken fun u hu hk =>
    hrun (hends.2 (.inl (hu ▸ hk)))

lemma takesLines_statementList : TakesLines Any (statementList statement terminators) := by
  unfold statementList
  exact .bind (.loop (fun _ => takesLines_listStep hst terminators) ()) fun _ => .pure _

lemma takesLines_block : TakesLines (·.kindAt .statement = .indent) (block statement) :=
  takesLines_inBlock (fun _ => ()) (takesLines_statementList hst .empty)

lemma takesLines_group (lineGroup : Bool) : TakesLines Any (group levels statement lineGroup) := by
  have hblock : TakesLines Any (itemBlock statement) :=
    .isAt (.bind (takesLines_block hst) fun _ => .pure _) (.pure _)
  have htail (mode : Mode) : TakesLines Any (groupTail lineGroup mode) :=
    .bind (.eat rfl) fun _ => .ite (fun _ => .pure _) fun _ => .bind .poll fun _ =>
      .ite (fun _ => .pure _) fun _ => .isAt (.pure _) (.pure _)
  unfold group
  refine .node _ (.bind (.loop (fun mode => ?_) _) fun _ => .pure _)
  unfold groupStep
  rw [groupItem]
  refine .bind (.node _ (.bind ?_ fun _ => hblock)) fun _ s hg hs _ => ?_
  · unfold itemHead
    exact .endsLine
  · rw [after_get_bind]
    exact htail _ hg hs trivial

lemma takesLines_clause (kind : Kind) (conditional : Bool) :
    TakesLines Any (clause levels statement kind conditional terminators) := by
  have hends : EndsLine (clauseHead levels conditional) := by
    unfold clauseHead clauseCommand
    dsimp only
    infer_instance
  rw [clause_eq]
  exact .node _ (.bind .endsLine fun _ => takesLines_statementList hst terminators)

lemma takesLines_onceClause : TakesLines Any (onceClause levels statement terminators) := by
  have hends : EndsLine (onceHead levels) := by
    unfold onceHead onceCommand
    dsimp only
    infer_instance
  rw [onceClause_eq]
  exact .node _ (.bind .endsLine fun _ => takesLines_statementList hst terminators)

omit hst in
lemma takesLines_ambiguous (afterElse : Bool) (message : String) :
    TakesLines Any (ambiguous afterElse message) := by
  unfold ambiguous
  exact .ite (fun _ => .errorOf _ _ _) fun _ => .pure _

lemma takesLines_ifStep (afterElse : Bool) :
    TakesLines Any (ifStep statement levels terminators afterElse) := by
  have hclause (kind : Kind) (conditional next : Bool) (message : String) :
      TakesLines Any (ambiguous afterElse message >>= fun _ =>
        clause levels statement kind conditional terminators >>= fun _ =>
          pure (.yield next : ForInStep Bool)) :=
    .bind (takesLines_ambiguous afterElse message) fun _ =>
      .bind (takesLines_clause hst terminators levels kind conditional) fun _ => .pure _
  unfold ifStep
  refine .peekCommand fun keyword => ?_
  split
  · exact hclause _ _ _ _
  · exact hclause _ _ _ _
  · exact .pure _

lemma takesLines_onceStep (afterElse : Bool) :
    TakesLines Any (onceStep statement levels terminators afterElse) :=
  .peekCommand fun _ => .ite (fun _ => .bind (takesLines_ambiguous afterElse _) fun _ =>
    .bind (takesLines_clause hst terminators levels _ _) fun _ => .pure _) fun _ => .pure _

lemma takesLines_command : TakesLines Any (command levels statement terminators) := by
  have hif : TakesLines Any (ifStatement levels statement terminators) := by
    unfold ifStatement
    exact .bind (.nodeOf (.bind (takesLines_clause hst _ levels _ _) fun _ =>
      .bind (.loop (takesLines_ifStep hst _ levels) false) fun _ => takesLines_closeWith _ _ _))
        fun _ => .pure _
  have honce : TakesLines Any (onceStatement levels statement terminators) := by
    unfold onceStatement
    exact .bind (.nodeOf (.bind (takesLines_onceClause hst _ levels) fun _ =>
      .bind (.loop (takesLines_onceStep hst _ levels) false) fun _ => takesLines_closeWith _ _ _))
        fun _ => .pure _
  have hstray (keyword : Kind) : TakesLines Any (strayClause keyword) := by
    unfold strayClause
    dsimp only
    split <;> exact .bind (.errorOf _ _ _) fun _ => .endsLine
  unfold command
  refine .peekCommand fun keyword => ?_
  split
  · exact hif
  · exact honce
  · exact .endsLine
  · exact .endsLine
  · exact .endsLine
  · exact .endsLine
  · exact .endsLine
  · exact .endsLine
  · exact takesLines_enumCommand levels
  · exact .ite (fun _ => hstray _) fun _ => .endsLine
  · exact .endsLine

lemma takesLines_statementOf : TakesLines Any (statementOf levels statement terminators) := by
  unfold statementOf
  refine .peekKind fun k => ?_
  split
  · exact takesLines_block hst
  · exact (takesLines_group hst levels false).weaken fun _ _ => trivial
  · exact (takesLines_group hst levels true).weaken fun _ _ => trivial
  · exact (takesLines_command hst terminators levels).weaken fun _ _ => trivial
  · exact takesLines_passLine.weaken fun _ _ => trivial
  · exact .endsLine

end

/-- **Every statement** takes whole lines. -/
theorem lines_statement (levels : Nat) : Lines (statement levels) := by
  refine ⟨fun terminators => ?_, (moving_statement levels).moves⟩
  induction levels generalizing terminators with
  | zero =>
    rw [statement]
    exact (takesLines_errorLine _).weaken fun _ _ => trivial
  | succ levels ih =>
    rw [statement]
    exact (takesLines_statementOf ⟨ih, (moving_statement levels).moves⟩ terminators levels).weaken
      fun _ _ => trivial

/-! ### Bodies -/

lemma takesLines_bodyStep : TakesLines Any bodyStep := by
  have hstray : TakesLines (·.kindAt .statement = .dedent)
      (node .error
        (error .statement "unexpected end of block" >>= fun _ => advance .statement)) := by
    intro s hg hs hk
    have hu := Rule.good (error .statement "unexpected end of block") (good_start hg)
    have hkind := (Good.kindAt_errorOf (good_start hg) .statement .unexpectedToken
      "unexpected end of block").1
    rw [← error] at hkind
    rw [after_node, after_bind]
    generalize (error .statement "unexpected end of block").after s.start = u at hu hkind
    have hd : u.kindAt .statement = .dedent := hkind.trans hk
    rw [hu.after_advance, if_neg (by simp [hd])]
    exact ⟨good_complete (hu.take _) _, atLine_take hu (.inr hd)⟩
  refine .bind (takesLines_statementList (lines_statement maxDepth) .empty) fun _ =>
    .bind .isCancelled fun _ => .ite (fun _ => .pure _) fun _ => .isAt ?_ ?_
  · exact .bind hstray fun _ => .pure _
  · exact .pure _

/-- The statements of a body end where a line does. -/
lemma takesLines_bodyStatements : TakesLines Any bodyStatements := by
  unfold bodyStatements
  exact .bind (.loop (fun _ => takesLines_bodyStep) ()) fun _ => .pure _

end Parser

end DialogueScript
