import DialogueScript.Grammar.Statement
import DialogueScript.Proofs.Grammar.Command

/-!
The rules for statements depend on nothing but what their scanner sees. A run of statements goes on
because a statement that takes nothing is followed by an error that takes a token.
-/

set_option synthInstance.maxSize 512

namespace DialogueScript

namespace Parser

open ParserState

/-! ### Runs of statements -/

section
variable (terminators : KindSet)

instance : Rule (endsStatements terminators) := by
  unfold endsStatements
  refine .seq inferInstance fun k => ?_
  split <;> infer_instance

lemma run_endsStatements {s : ParserState} (hg : s.Good) :
    (endsStatements terminators).after s = s.look .statement ∧
      ((endsStatements terminators).answer s = true ↔ endsBlock (s.kindAt .statement) ∨
        s.kindAt .statement = .commandStart ∧
          (s.commandAt .statement).any terminators.contains = true) := by
  have hlook := hg.look .statement
  rw [endsStatements, answer_bind, after_bind, hg.answer_peekKind, hg.after_peekKind]
  unfold endsBlock
  split
  case h_5 hk =>
    simp [hk, hlook]
  case h_6 h1 h2 h3 h4 h5 =>
    simp [show s.kindAt .statement ≠ .eof from h1, show s.kindAt .statement ≠ .bodyEnd from h2,
      show s.kindAt .statement ≠ .titleKw from h3, show s.kindAt .statement ≠ .dedent from h4,
      show s.kindAt .statement ≠ .commandStart from h5]
  all_goals
    next hk => simp [hk]

section
variable (statement : KindSet → Parser Unit) [∀ t, Rule (statement t)]

instance : Rule nothingTaken := by
  unfold nothingTaken
  infer_instance

instance : Rule (statementStep terminators statement) :=
  .ifStuck inferInstance inferInstance inferInstance

instance : Rule (listStep terminators statement) := by
  unfold listStep
  infer_instance

lemma budget_nothingTaken {s : ParserState} (hg : s.Good) (hk : s.kindAt .statement ≠ .eof) :
    (nothingTaken.after s).scanner.budget < s.scanner.budget := by
  have hlook := hg.look .statement
  have hlt := Consumes.lt .statement (error .statement "expected a statement" >>= fun _ =>
    node .error (advance .statement)) hlook (by rwa [kindAt_look])
  rw [budget_look] at hlt
  simpa [nothingTaken, hg, hk] using hlt

/-- A statement takes a token, or the error behind it does. -/
lemma budget_statementStep {s : ParserState} (hg : s.Good) (hk : s.kindAt .statement ≠ .eof) :
    ((statementStep terminators statement).after s).scanner.budget < s.scanner.budget := by
  have hf := Rule.follows (statement terminators) hg
  have hu := hf.good
  rw [statementStep, Parser.after, run_ifStuck]
  generalize (statement terminators).after s = u at *
  rcases hf.budget with hlt | hidle
  · split
    · exact lt_of_le_of_lt (Rule.budget_le nothingTaken hu) hlt
    · exact hlt
  · have hoff : u.scanner.offset = s.scanner.offset := by
      have := hf.offset
      rw [hidle.rest] at this
      omega
    have hku : u.kindAt .statement ≠ .eof := by
      rwa [kindAt, hidle.ahead .statement rfl]
    rw [if_pos hoff, ← hidle.budget]
    exact budget_nothingTaken hu hku

lemma advances_listStep :
    Advances (fun _ => Any) fun _ : Unit => listStep terminators statement := by
  refine Goes.advances fun _ => .bind fun stop => .ite (goes_done _) ?_
  intro s hg _ b hb
  obtain ⟨hafter, hends⟩ := run_endsStatements terminators hg
  rw [answer_bind, hafter] at hb
  rw [after_bind, hafter, ← budget_look s .statement]
  split at hb
  · simp at hb
  · next hc =>
    rw [if_neg hc]
    refine budget_statementStep terminators statement (hg.look _) ?_
    rw [kindAt_look]
    exact fun hk => hc (hends.2 (.inl (.inl hk)))

instance : Rule (statementList statement terminators) := by
  have := Rule.loop (fun _ => inferInstance) (advances_listStep terminators statement) ()
  unfold statementList
  infer_instance

lemma poll_stop {s : ParserState} (h : poll.answer s = true) : (poll.after s).cancelled = true := by
  rcases poll_cases s with ⟨h1, h2⟩ | ⟨-, -, h2⟩ | ⟨-, h1, -⟩
  · rw [h2, ← h1, h]
  · rw [h2]
    rfl
  · simp [h1] at h

lemma running_of_poll {s : ParserState} (h : poll.answer s = false) : s.cancelled = false := by
  rcases poll_cases s with ⟨h1, -⟩ | ⟨h1, -, -⟩ | ⟨h1, -, -⟩
  · exact h1.symm.trans h
  · exact h1
  · exact h1

omit [∀ t, Rule (statement t)] in
lemma answer_statementStep (s : ParserState) :
    (statementStep terminators statement).answer s = .yield () := by
  rw [statementStep, Parser.answer, run_ifStuck]
  split
  · change nothingTaken.answer _ = _
    simp [nothingTaken]
  · rfl

/-- Where a run of statements ends. -/
lemma statementList_ends {s : ParserState} (hg : s.Good) :
    ((statementList statement terminators).after s).cancelled = true ∨
      endsBlock (((statementList statement terminators).after s).kindAt .statement) ∨
      (((statementList statement terminators).after s).kindAt .statement = .commandStart ∧
        (((statementList statement terminators).after s).commandAt .statement).any
          terminators.contains = true) := by
  obtain ⟨-, u, h1, -, -, h2, h3⟩ := loop_done (a := ()) (fun _ => Rule.reads)
    (advances_listStep terminators statement) hg trivial
  rw [statementList, after_bind, after_pure, h3]
  have hv := Rule.good poll h1
  rw [listStep, answer_bind] at h2
  rw [listStep, after_bind]
  split at h2
  · next hp =>
    rw [if_pos hp, after_pure]
    exact .inl (poll_stop hp)
  · next hp =>
    rw [if_neg hp]
    generalize poll.after u = v at *
    obtain ⟨hafter, hends⟩ := run_endsStatements terminators hv
    rw [answer_bind, hafter] at h2
    rw [after_bind, hafter]
    split at h2
    · next hc =>
      rw [if_pos hc, after_pure, kindAt_look, commandAt_look]
      exact .inr (hends.1 hc)
    · simp [answer_statementStep] at h2

/-! ### Blocks and groups -/

instance : Rule (block statement) := by
  unfold block
  infer_instance

end

end

section
variable (statement : KindSet → Parser Unit) (levels : Nat)

variable [∀ t, Rule (statement t)]

instance (mode : Mode) (kind : Kind) : Rule (groupItem levels statement mode kind) := by
  unfold groupItem itemHead itemBlock
  dsimp only
  infer_instance

instance (mode : Mode) (kind : Kind) : Consumes mode (groupItem levels statement mode kind) := by
  unfold groupItem itemHead itemBlock
  dsimp only
  infer_instance

instance (lineGroup : Bool) (mode : Mode) : Rule (groupTail lineGroup mode) := by
  unfold groupTail
  infer_instance

instance (lineGroup : Bool) (mode : Mode) : Rule (groupStep statement levels lineGroup mode) :=
  .seq inferInstance fun _ => .withConfig (fun _ => inferInstance) fun s s' h => by rw [h]

omit [∀ t, Rule (statement t)] in
/-- A group goes on at the arrow of its next item. -/
lemma groupTail_yield {lineGroup : Bool} {mode next : Mode} {s : ParserState} (hg : s.Good)
    (h : (groupTail lineGroup mode).answer s = .yield next) :
    ((groupTail lineGroup mode).after s).kindAt next = arrowOf lineGroup := by
  have h1 := Rule.good (eat mode .blankLine) hg
  rw [groupTail, answer_bind] at h
  rw [groupTail, after_bind]
  generalize (eat mode .blankLine).after s = u at *
  split at h
  · simp at h
  · next hc =>
    have h2 := Rule.good poll h1
    rw [if_neg hc]
    rw [answer_bind] at h
    rw [after_bind]
    generalize poll.after u = v at *
    split at h
    · simp at h
    · next hp =>
      rw [if_neg hp]
      by_cases hk : v.kindAt mode = arrowOf lineGroup
      · simp only [answer_bind, h2.answer_isAt, hk, decide_true, if_true, answer_pure,
          ForInStep.yield.injEq] at h
        subst h
        simp [h2, hk]
      · simp [h2, hk] at h

/-- Each item takes its arrow. -/
lemma budget_groupStep {lineGroup : Bool} {mode : Mode} {s : ParserState} (hg : s.Good)
    (hs : s.kindAt mode = arrowOf lineGroup) :
    ((groupStep statement levels lineGroup mode).after s).scanner.budget < s.scanner.budget := by
  have hne : s.kindAt mode ≠ .eof := by
    rw [hs, arrowOf]
    split <;> simp
  rw [groupStep, after_bind, after_get_bind]
  exact lt_of_le_of_lt (Rule.budget_le (groupTail lineGroup _) (Rule.good _ hg))
    (Consumes.lt mode (groupItem levels statement mode _) hg hne)

lemma advances_groupStep (lineGroup : Bool) :
    Advances (fun mode s => s.kindAt mode = arrowOf lineGroup)
      (groupStep statement levels lineGroup) := by
  intro mode s hg hs next hb
  refine ⟨budget_groupStep statement levels hg hs, ?_⟩
  rw [groupStep, answer_bind, answer_get_bind] at hb
  rw [groupStep, after_bind, after_get_bind]
  exact groupTail_yield (Rule.good _ hg) hb

omit [∀ t, Rule (statement t)] in
lemma groupTail_mode {lineGroup : Bool} {mode next : Mode} {s : ParserState}
    (h : (groupTail lineGroup mode).answer s = .yield next) : next = mode := by
  simp only [groupTail, answer_bind, answer_ite, answer_pure] at h
  split at h
  · simp at h
  · split at h
    · simp at h
    · split at h
      · simpa using h.symm
      · simp at h

omit [∀ t, Rule (statement t)] in
lemma itemMode_sensitive (b : Prop) [Decidable b] :
    (if b then Mode.afterOption else Mode.statement).isIndentSensitive = true := by
  split <;> rfl

omit [∀ t, Rule (statement t)] in
lemma arrowOf_cases (lineGroup : Bool) :
    arrowOf lineGroup = .lineGroupArrow ∨ arrowOf lineGroup = .shortcutArrow := by
  cases lineGroup <;> simp [arrowOf]

/-- An item is read in a mode that compares the indentation, at its arrow. -/
def AtArrow (lineGroup : Bool) (mode : Mode) (s : ParserState) : Prop :=
  mode.isIndentSensitive = true ∧ s.kindAt mode = arrowOf lineGroup

lemma advances_groupStep_sensitive (lineGroup : Bool) :
    Advances (AtArrow lineGroup) (groupStep statement levels lineGroup) := by
  intro mode s hg hs next hb
  obtain ⟨hlt, hkind⟩ := advances_groupStep statement levels lineGroup hg hs.2 hb
  refine ⟨hlt, ?_, hkind⟩
  rw [groupStep, answer_bind, answer_get_bind] at hb
  rw [groupTail_mode hb]
  exact itemMode_sensitive _

lemma reading_group (lineGroup : Bool) : Reading (group levels statement lineGroup) := by
  unfold group
  exact .node (.bind (.loop (fun _ => Rule.reads) _) fun _ => Rule.reads) _

lemma matches_group (lineGroup : Bool) :
    Matches (fun s => s.kindAt .statement = arrowOf lineGroup) (group levels statement lineGroup)
      (fun s => s.kindAt .statement = arrowOf lineGroup) (group levels statement lineGroup) := by
  have hreads : Reading (loop (groupStep statement levels lineGroup) Mode.statement) :=
    .loop (fun _ => Rule.reads) _
  have hloop := Matches.loop (fun _ => Rule.reads) (fun _ => Rule.matches inferInstance _ _)
    (advances_groupStep statement levels lineGroup) (advances_groupStep statement levels lineGroup)
    Mode.statement
  unfold group
  refine (Matches.node (.bind (fun _ => Rule.reads) hloop (fun _ => Rule.agrees)
    (fun _ _ _ => trivial) (fun _ _ _ => trivial) hreads) ?_ ?_ _).weaken (fun _ h => h)
      (fun _ h => h)
  · exact .bind hreads fun _ => Rule.reads
  · exact .bind hreads fun _ => Rule.reads

/-! ### Chains -/

instance (terminators : KindSet) : Rule (clauseBody statement terminators) := by
  unfold clauseBody
  infer_instance

omit [∀ t, Rule (statement t)] in
instance (conditional : Bool) : Rule (clauseCommand levels conditional) := by
  unfold clauseCommand
  infer_instance

instance (kind : Kind) (conditional : Bool) (terminators : KindSet) :
    Rule (clause levels statement kind conditional terminators) := by
  unfold clause
  infer_instance

instance (kind : Kind) (conditional : Bool) (terminators : KindSet) :
    Consumes .statement (clause levels statement kind conditional terminators) := by
  unfold clause clauseCommand
  dsimp only
  infer_instance

omit [∀ t, Rule (statement t)] in
instance : Rule (onceCommand levels) := by
  unfold onceCommand
  infer_instance

instance (terminators : KindSet) : Rule (onceClause levels statement terminators) := by
  unfold onceClause
  infer_instance

end

instance (afterElse : Bool) (message : String) : Rule (ambiguous afterElse message) := by
  unfold ambiguous
  infer_instance

instance {α : Type} (f : Unit → Parser α) [hf : Consumes .statement (f ())] (afterElse : Bool)
    (message : String) : Consumes .statement (ambiguous afterElse message >>= f) := by
  cases afterElse
  · exact hf
  · exact .errorOf hf _ message

section
variable (statement : KindSet → Parser Unit) (levels : Nat) [∀ t, Rule (statement t)]
  (terminators : KindSet)

instance (afterElse : Bool) : Rule (ifStep statement levels terminators afterElse) := by
  unfold ifStep
  refine .seq inferInstance fun keyword => ?_
  split <;> infer_instance

instance (afterElse : Bool) : Rule (onceStep statement levels terminators afterElse) := by
  unfold onceStep
  infer_instance

lemma advances_ifStep : Advances (fun _ => Any) (ifStep statement levels terminators) := by
  refine Goes.advances fun afterElse => Goes.ofCommand (goes_done _) fun keyword => ?_
  split
  · exact .of_consumes .statement (by rintro s hk; simp [hk])
  · exact .of_consumes .statement (by rintro s hk; simp [hk])
  · exact goes_done _

lemma advances_onceStep : Advances (fun _ => Any) (onceStep statement levels terminators) := by
  refine Goes.advances fun afterElse => Goes.ofCommand (goes_done _) fun keyword => ?_
  exact .ite (.of_consumes .statement (by rintro s hk; simp [hk])) (goes_done _)

instance (afterElse : Bool) : Rule (loop (ifStep statement levels terminators) afterElse) :=
  Rule.loop inferInstance (advances_ifStep statement levels terminators) _

instance (afterElse : Bool) : Rule (loop (onceStep statement levels terminators) afterElse) :=
  Rule.loop inferInstance (advances_onceStep statement levels terminators) _

instance : Rule (ifStatement levels statement terminators) := by
  unfold ifStatement
  infer_instance

instance : Rule (onceStatement levels statement terminators) := by
  unfold onceStatement
  infer_instance

/-! ### All statements -/

instance : Rule (command levels statement terminators) := by
  unfold command
  refine .seq inferInstance fun keyword => ?_
  split <;> infer_instance

lemma rule_statementOf : Rule (statementOf levels statement terminators) := by
  unfold statementOf
  refine .peekKind fun k => ?_
  split
  case h_2 => exact ⟨reading_group statement levels false, matches_group statement levels false⟩
  case h_3 => exact ⟨reading_group statement levels true, matches_group statement levels true⟩
  all_goals exact ⟨Rule.reads, Rule.matches inferInstance _ _⟩

end

lemma rule_statement (levels : Nat) (terminators : KindSet) :
    Rule (statement levels terminators) := by
  induction levels generalizing terminators with
  | zero =>
    rw [statement]
    infer_instance
  | succ levels ih =>
    rw [statement]
    exact rule_statementOf _ _ _

instance (levels : Nat) (terminators : KindSet) : Rule (statement levels terminators) :=
  rule_statement levels terminators

end Parser

end DialogueScript
