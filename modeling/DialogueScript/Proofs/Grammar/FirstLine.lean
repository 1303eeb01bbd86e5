import DialogueScript.Proofs.Grammar.Inline

/-!
The first lines of statements. A statement that stands on a line with a break takes some of the
text: the break, or the blanks in front of a block.
-/

set_option synthInstance.maxSize 512

namespace DialogueScript

namespace Parser

open ParserState
open Scanner (OnLine Untouched NoBreak AtKeyword Anywhere)

variable {α β σ : Type}

lemma length_lt_of_untouched {s u : ParserState} (hf : Follows s u)
    (hs : s.scanner.isFresh = false) (hu : u.scanner.Untouched) :
    u.scanner.rest.length < s.scanner.rest.length := by
  have hle := hf.unseen
  have hs' := s.scanner.beyond_le_length
  rw [Scanner.Untouched] at hu
  simp only [Scanner.unseen, hs, hu, if_true, Bool.false_eq_true, if_false] at hle
  omega

lemma isFresh_look (s : ParserState) (mode : Mode) : (s.look mode).scanner.isFresh = false := by
  simp [ParserState.look, Scanner.looking, Scanner.isFresh]

/-- On a line that has been looked at and ends with a break, under the condition `P`, a rule takes
some of the text. -/
def Shortens (P : ParserState → Prop) (p : Parser α) : Prop :=
  ∀ ⦃s⦄, s.Good → s.scanner.OnLine → s.scanner.isFresh = false → P s →
    (p.after s).scanner.rest.length < s.scanner.rest.length

namespace Shortens

variable {P : ParserState → Prop} {p q : Parser α}

/-- A rule that takes the break of its line. -/
lemma of_leads {Q : Scanner → Prop} [Rule p] [hp : Leads Q Untouched p]
    (hQ : ∀ s, s.Good → P s → Q s.scanner) : Shortens P p :=
  fun s hg hs hfresh hP =>
    length_lt_of_untouched (Rule.follows p hg) hfresh (hp.leads hg hs (hQ s hg hP))

lemma bind {f : α → Parser β} (hp : Shortens P p) (hr : Reading p) (hf : ∀ a, Reading (f a)) :
    Shortens P (p >>= f) := by
  intro s hg hs hfresh hP
  have hu := (hr.follows hg).good
  rw [after_bind]
  exact lt_of_le_of_lt ((hf _).follows hu).suffix.length_le (hp hg hs hfresh hP)

lemma node (hp : Shortens P p) (hP : ∀ s, P s → P s.start) (k : Kind) :
    Shortens P (Parser.node k p) :=
  fun _ hg hs hfresh h => hp (good_start hg) hs hfresh (hP _ h)

lemma nodeOf {p : Parser Kind} (hp : Shortens P p) (hP : ∀ s, P s → P s.start) :
    Shortens P (Parser.nodeOf p) :=
  fun _ hg hs hfresh h => hp (good_start hg) hs hfresh (hP _ h)

lemma loop {step : σ → Parser (ForInStep σ)} {a : σ} (h : Shortens P (step a))
    (hr : ∀ a, Reading (step a)) : Shortens P (loop step a) := by
  intro s hg hs hfresh hP
  have hlt := h hg hs hfresh hP
  unfold Parser.after
  rw [run_loop]
  rcases hb : (step a).answer s with b | b
  · rw [run_loopUpTo_done hb]
    exact hlt
  · have hu := ((hr a).follows hg).good
    rw [run_loopUpTo_yield hb]
    exact lt_of_le_of_lt ((Reading.loopUpTo hr s.scanner.budget b).follows hu).suffix.length_le hlt

lemma weaken {Q : ParserState → Prop} (hp : Shortens Q p) (h : ∀ s, P s → Q s) : Shortens P p :=
  fun _ hg hs hfresh hP => hp hg hs hfresh (h _ hP)

/-- What stands next is known to what is done about it. -/
lemma look {a : ParserState → α} {mode : Mode} {f : α → Parser β}
    (hafter : ∀ s : ParserState, s.Good → p.after s = s.look mode)
    (hanswer : ∀ s : ParserState, s.Good → p.answer s = a s)
    (ha : ∀ s : ParserState, a (s.look mode) = a s) (hP : ∀ s, P s → P (s.look mode))
    (hf : ∀ x, Shortens (fun s => P s ∧ a s = x) (f x)) : Shortens P (p >>= f) := by
  intro s hg hs hfresh h
  have hrest : (s.look mode).scanner.rest = s.scanner.rest := Scanner.settle_rest _ _
  rw [after_bind, hafter s hg, hanswer s hg, ← hrest]
  exact hf _ (hg.look mode) (hs.looking mode) (isFresh_look s mode) ⟨hP s h, ha s⟩

end Shortens

/-! ### First lines -/

/-- A statement can start here: a line starts, and it does not end the statements. -/
structure AtStatement (s : ParserState) : Prop where
  lineStart : s.scanner.lineStart = true
  kind : ¬ endsBlock (s.kindAt .statement)

lemma AtStatement.noBreak {s : ParserState} (h : AtStatement s) (hg : s.Good) :
    NoBreak .statement s.scanner :=
  AtLine.kind_ne hg (.inl h.lineStart) .statement rfl rfl

lemma AtStatement.look {s : ParserState} (h : AtStatement s) : AtStatement (s.look .statement) := by
  refine ⟨?_, by rw [kindAt_look]; exact h.kind⟩
  simp [ParserState.look, Scanner.looking, Scanner.settle_of_sensitive s.scanner
    (show Mode.isIndentSensitive .statement = true from rfl), h.lineStart]

lemma atKeyword_of_command {s : ParserState} {k : Kind} (h : s.commandAt .statement = some k) :
    AtKeyword s.scanner := by
  intro hnone
  rw [commandAt, hnone] at h
  simp at h

/-- The first line of a clause. -/
def clauseHead (levels : Nat) (conditional : Bool) : Parser Unit := do
  clauseCommand levels conditional
  endOfLine .text

/-- The first line of a `once` chain. -/
def onceHead (levels : Nat) : Parser Unit := do
  onceCommand levels
  endOfLine .text

section
variable (levels : Nat)

instance (conditional : Bool) : Rule (clauseHead levels conditional) := by
  unfold clauseHead
  infer_instance

instance (conditional : Bool) : Leads AtKeyword Untouched (clauseHead levels conditional) := by
  unfold clauseHead clauseCommand
  dsimp only
  infer_instance

instance : Rule (onceHead levels) := by
  unfold onceHead
  infer_instance

instance : Leads AtKeyword Untouched (onceHead levels) := by
  have : Leads Anywhere OnLine (eat .command .ifKw) := .eat (by simp)
  unfold onceHead onceCommand
  dsimp only
  infer_instance

instance (mode : Mode) : Rule (itemHead levels mode) := by
  unfold itemHead
  infer_instance

instance (mode : Mode) : Leads (NoBreak mode) Untouched (itemHead levels mode) := by
  unfold itemHead
  infer_instance

instance : Rule enumHead := by
  unfold enumHead enumName
  infer_instance

instance : Leads AtKeyword Untouched enumHead := by
  unfold enumHead enumName
  infer_instance

end

section
variable (statement : KindSet → Parser Unit) (levels : Nat) (terminators : KindSet)

lemma clause_eq (kind : Kind) (conditional : Bool) :
    clause levels statement kind conditional terminators =
    node kind (clauseHead levels conditional >>= fun _ => statementList statement terminators) := by
  unfold clause clauseHead clauseBody
  simp only [bind_assoc]

lemma onceClause_eq : onceClause levels statement terminators =
    node .onceClause (onceHead levels >>= fun _ => statementList statement terminators) := by
  unfold onceClause onceHead clauseBody
  simp only [bind_assoc]

/-! ### Statements -/

variable [∀ t, Rule (statement t)]

instance : Rule (itemBlock statement) := by
  unfold itemBlock
  infer_instance

instance : Rule (enumCases levels) := by
  have := Rule.loop (fun _ => inferInstance) (advances_enumStep levels) 0
  unfold enumCases
  infer_instance

instance : Rule (enumTail levels) := by
  unfold enumTail
  infer_instance

lemma shortens_block : Shortens (·.kindAt .statement = .indent) (block statement) := by
  refine .node (.bind (fun s hg _ _ hk => ?_) Rule.reads fun _ => Rule.reads) (fun _ h => h) _
  rw [hg.after_advance, if_neg (by simp [hk])]
  exact length_take_indent hg hk

lemma shortens_clause (kind : Kind) (conditional : Bool) : Shortens (fun s => AtKeyword s.scanner)
    (clause levels statement kind conditional terminators) := by
  rw [clause_eq]
  exact .node (.bind (.of_leads fun _ _ h => h) Rule.reads fun _ => Rule.reads) (fun _ h => h) _

lemma shortens_onceClause : Shortens (fun s => AtKeyword s.scanner)
    (onceClause levels statement terminators) := by
  rw [onceClause_eq]
  exact .node (.bind (.of_leads fun _ _ h => h) Rule.reads fun _ => Rule.reads) (fun _ h => h) _

lemma shortens_enumCommand : Shortens (fun s => AtKeyword s.scanner) (enumCommand levels) := by
  rw [enumCommand]
  refine .bind
    (.nodeOf (.bind (.of_leads fun _ _ h => h) Rule.reads fun _ => Rule.reads) fun _ h => h)
    Rule.reads fun _ => Rule.reads

lemma shortens_group (lineGroup : Bool) :
    Shortens (fun s => NoBreak .statement s.scanner) (group levels statement lineGroup) := by
  unfold group
  refine .node
    (.bind (.loop ?_ fun _ => Rule.reads) (.loop (fun _ => Rule.reads) _) fun _ => Rule.reads)
    (fun _ h => h) _
  refine .bind ?_ Rule.reads fun hadBlock s hg => Rule.reads (p := groupTail lineGroup _) hg
  rw [groupItem]
  exact .node (.bind (.of_leads fun _ _ h => h) Rule.reads fun _ => Rule.reads) (fun _ h => h) _

lemma shortens_command : Shortens (·.kindAt .statement = .commandStart)
    (command levels statement terminators) := by
  have hbreak : ∀ {o : Option Kind} (s : ParserState), s.kindAt .statement = .commandStart ∧
      s.commandAt .statement = o → NoBreak .statement s.scanner := by
    rintro o s ⟨h, -⟩
    rw [NoBreak, ← kindAt, h]
    simp
  unfold command
  refine .look (a := (·.commandAt .statement)) (fun _ hg => hg.after_peekCommand _)
    (fun _ hg => hg.answer_peekCommand _) (fun s => commandAt_look s _)
    (fun s h => (kindAt_look s _).trans h) fun o => ?_
  split
  · unfold ifStatement
    refine .bind (.nodeOf (.bind ?_ Rule.reads fun _ => Rule.reads) fun _ h => h) Rule.reads
      fun _ => Rule.reads
    exact (shortens_clause ..).weaken fun s h => atKeyword_of_command h.2
  · unfold onceStatement
    refine .bind (.nodeOf (.bind ?_ Rule.reads fun _ => Rule.reads) fun _ h => h) Rule.reads
      fun _ => Rule.reads
    exact (shortens_onceClause ..).weaken fun s h => atKeyword_of_command h.2
  · exact .of_leads fun s _ h => atKeyword_of_command h.2
  · exact .of_leads fun s _ h => atKeyword_of_command h.2
  · exact .of_leads fun s _ h => atKeyword_of_command h.2
  · exact .of_leads fun s _ h => atKeyword_of_command h.2
  · exact .of_leads fun s _ h => atKeyword_of_command h.2
  · exact .of_leads fun s _ h => atKeyword_of_command h.2
  · exact (shortens_enumCommand levels).weaken fun s h => atKeyword_of_command h.2
  · split
    · exact .of_leads fun s _ h => hbreak s h
    · exact .of_leads fun s _ h => hbreak s h
  · exact .of_leads fun s _ h => hbreak s h

lemma shortens_statementOf : Shortens AtStatement (statementOf levels statement terminators) := by
  unfold statementOf
  refine .look (a := (·.kindAt .statement)) (fun _ hg => hg.after_peekKind _)
    (fun _ hg => hg.answer_peekKind _) (fun s => kindAt_look s _) (fun s h => h.look) fun k => ?_
  split
  · exact (shortens_block statement).weaken fun s h => h.2
  · exact fun s hg hs hfresh h =>
      shortens_group statement levels false hg hs hfresh (h.1.noBreak hg)
  · exact fun s hg hs hfresh h => shortens_group statement levels true hg hs hfresh (h.1.noBreak hg)
  · exact (shortens_command statement levels terminators).weaken fun s h => h.2
  · exact .of_leads fun s hg h => h.1.noBreak hg
  · exact .of_leads (Q := Anywhere) fun _ _ _ => trivial

end

/-- Every statement takes some of the text. -/
lemma shortens_statement (levels : Nat) (terminators : KindSet) :
    Shortens AtStatement (statement levels terminators) := by
  cases levels with
  | zero =>
    rw [statement]
    exact .of_leads fun s hg h => h.noBreak hg
  | succ levels =>
    rw [statement]
    exact shortens_statementOf _ _ _

end Parser

end DialogueScript
