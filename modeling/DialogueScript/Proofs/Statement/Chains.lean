import DialogueScript.Proofs.Statement.Runs

/-!
Reading commands and the chains of clauses that they open. The statements of a clause end at the
command of the next one, which is among the keywords that the chain hands down, with those of the
constructs around it.
-/

namespace DialogueScript

open DialogueScript.Parser DialogueScript.Scanner

namespace Passage

variable {j j' levels : Nat} {k : Kind} {rest r c : Text} {terminators : KindSet} {pre : List Tree}

/-! ### Commands -/

section
variable (hk : IsCommand k)
include hk

lemma faces_command (rest r : Text) :
    Faces .statement .commandStart (LineAt j j (commandContent k rest r)) := by
  have hfaces : Faces .statement (kindOf j j (commandContent k rest r))
      (LineAt j j (commandContent k rest r)) :=
    LineAt.faces rfl (by omega)
  rwa [kindOf_command hk] at hfaces

/-- The keyword of a command decides what is done about it. -/
lemma Course.peekKeyword {α : Type} {a : α} {f : Option Kind → Parser α} {V : List Tree → Prop}
    {q : Scanner → Prop} (hrest : rest.head?.all (· = ' ') = true)
    (h : Course (LineAt j j (commandContent k rest r)) pre (f (some k)) a V q) :
    Course (LineAt j j (commandContent k rest r)) pre (peekCommand .statement >>= f) a V q :=
  Course.peekCommand (faces_command hk rest r)
    (fun _ hs => by rw [LineAt.commandAt (by omega) hs, keywordOf_command hk hrest]) h

/-- A line that starts with a command is read as one. -/
lemma statement_command {V : List Tree → Prop} {q : Scanner → Prop}
    (h : Course (LineAt j j (commandContent k rest r)) pre
      (command levels (statement levels) terminators) () V q) :
    Course (LineAt j j (commandContent k rest r)) pre (statement (levels + 1) terminators)
      () V q := by
  rw [statement]
  exact Course.peekKind (faces_command hk rest r) h

end

lemma reads_set {name digits : Text} (h : (set name digits).WellFormed) :
    (set name digits).Reads := by
  rintro (_ | levels) j terminators r j' c hd hl - hr hf
  · omega
  have hlevel := hf.level
  rw [text, ahead_eq (lineOf_command _ _ _ (by omega)), ahead_eq hr]
  refine statement_command (by decide) (Course.peekKeyword (by decide) rfl ?_)
  refine (setCommand_course hr (by omega) h.1 h.2 (by omega)).mono ?_
  rintro _ ⟨t, ht, rfl⟩
  exact ⟨t, ht, rfl⟩

lemma reads_jump {name : Text} (h : (jump name).WellFormed) : (jump name).Reads := by
  rintro (_ | levels) j terminators r j' c hd hl - hr hf
  · omega
  have hlevel := hf.level
  rw [text, ahead_eq (lineOf_command _ _ _ (by omega)), ahead_eq hr]
  refine statement_command (by decide) (Course.peekKeyword (by decide) rfl ?_)
  refine (jumpCommand_course hr (by omega) h).mono ?_
  rintro _ ⟨t, ht, rfl⟩
  exact ⟨t, ht, rfl⟩

lemma reads_ret : ret.Reads := by
  rintro (_ | levels) j terminators r j' c hd hl - hr hf
  · omega
  have hlevel := hf.level
  rw [text, ahead_eq (lineOf_command _ _ _ (by omega)), ahead_eq hr]
  refine statement_command (by decide) (Course.peekKeyword (by decide) rfl ?_)
  refine (returnCommand_course hr (by omega)).mono ?_
  rintro _ ⟨t, ht, rfl⟩
  exact ⟨t, ht, rfl⟩

/-! ### Clauses -/

/-- What follows the keyword of a clause. -/
def conditionText : Option Text → Text
  | none => []
  | some name => spacedVariable name

/-- The children of a clause with its condition and its statements. -/
structure IsClause (condition : Option Text) (body : List Passage) (ds : List Tree) : Prop where
  condition : Expr.among? ds = condition.map variableValue
  statements : Stmt.ofAll ds = values body

/-- Trees for the condition of a clause. -/
structure IsCondition (condition : Option Text) (us : List Tree) : Prop where
  condition : Expr.ofAll us = (condition.map variableValue).toList
  statements : Stmt.ofAll us = []

section
variable {body : List Passage} (hwell : WellFormedAll body) (hread : ReadsAll body)
  (hd : depthAll body + 1 < levels) (hl : j + levels ≤ maxDepth) (hterm : ClauseOnly terminators)
  (hr : LineOf j' c r) (hj : j' ≤ j) (hend : EndsAt terminators j j' c)
include hwell hread hd hl hterm hr hj hend

/-- The end of the command of a clause and the statements of the clause. -/
lemma clauseBody_course {condition : Option Text} (hpre : IsCondition condition pre) :
    Course (Midline (.nested j) (">>".toList ++ '\n' :: (textAll j body ++ r))) pre (do
        commandEnd .command
        clauseBody (statement levels) terminators) () (IsClause condition body)
          (LineAt j j' c) := by
  obtain ⟨j₂, c₂, hline, hj₂⟩ := first_line hwell (by omega) hr hj
  have hrun := hread hd hl hterm hr hj hend
  rw [ahead_eq hline, ahead_eq hr] at hrun
  refine (commandEnd_course (.inr (.inr rfl))).bind ?_
  rintro _ ⟨t1, -, -, rfl⟩
  refine (endOfLine_course (Midline.offers_line rfl hline (by omega))).bind ?_
  rintro _ ⟨t2, -, -, rfl⟩
  refine hrun.frame.mono ?_
  rintro _ ⟨us, hus, rfl⟩
  refine ⟨?_, ?_⟩
  · cases condition <;> simp [Expr.among?, Expr.ofAll_cons, hpre.condition, hus.expressions]
  · simp [Stmt.ofAll_cons, hpre.statements, hus.statements]

/-- A clause behind its command, with a condition or without. -/
lemma clause_course (hk : IsCommand k) (kind : Kind) {condition : Option Text}
    (hc : condition.all isWord = true) :
    Course (LineAt j j (commandContent k (conditionText condition) (textAll j body ++ r))) pre
      (clause levels (statement levels) kind condition.isSome terminators) ()
      (fun ts => ∃ ds, IsClause condition body ds ∧ ts = pre ++ [.node kind ds])
        (LineAt j j' c) := by
  unfold clause clauseCommand
  refine Course.node kind ?_
  rw [bind_assoc]
  rcases condition with _ | name
  · simp only [Option.isSome_none, Bool.false_eq_true, if_false]
    refine (commandStart_course (b := []) hk rfl (endsWord_rest [] rfl _)
      (unspaced_commandEnd _)).bind ?_
    rintro _ ⟨t1, t2, -, -, rfl⟩
    exact clauseBody_course hwell hread hd hl hterm hr hj hend
      ⟨by simp [Expr.ofAll_cons], by simp [Stmt.ofAll_cons]⟩
  · simp only [Option.isSome_some, if_true, bind_assoc]
    refine (commandStart_course (b := [' ']) hk rfl ?_ ?_).bind ?_
    · rintro _ ⟨⟩
      decide
    · rintro _ ⟨⟩
      decide
    rintro _ ⟨t1, t2, -, -, rfl⟩
    have hname : isWord name = true := by simpa using hc
    refine (condition_course hname (by omega)).step ?_
    rintro _ ⟨t, rfl, ht⟩
    exact clauseBody_course hwell hread hd hl hterm hr hj hend
      ⟨by simp [Expr.ofAll_cons, ht, Term.value, variableValue],
        by simp [Stmt.ofAll_cons, Stmt.eq_none_of_expr ht]⟩

end

/-! ### Ends of chains -/

lemma endsAt_command (hk : IsCommand k) {rest : Text} (hrest : rest.head?.all (· = ' ') = true)
    (hc : terminators.contains k = true) (r : Text) :
    EndsAt terminators j j (commandContent k rest r) :=
  .inr ⟨k, keywordOf_command hk hrest r, hc⟩

lemma closeWith_course (hk : IsCommand k) (kind : Kind) (message : String) (hr : LineOf j' c r)
    (hj : j' ≤ j) : Course (LineAt j j (commandContent k [] r)) pre (closeWith k kind message) kind
      (fun ts => ∃ t1 t2 t3 t4 : Token, ts = pre ++ [.leaf t1, .leaf t2, .leaf t3, .leaf t4])
      (LineAt j j' c) := by
  refine Course.peekKeyword hk rfl ?_
  rw [if_pos rfl]
  refine (commandStart_course (b := []) hk rfl (endsWord_rest [] rfl _)
    (unspaced_commandEnd _)).bind ?_
  rintro _ ⟨t1, t2, -, -, rfl⟩
  refine (commandClose_course hr (by omega)).bind ?_
  rintro _ ⟨t3, t4, -, -, rfl⟩
  exact .pure ⟨t1, t2, t3, t4, by simp⟩

/-- The trees of an `else`, if there is one. -/
def IsElse (kind : Kind) : Option (List Passage) → List Tree → Prop
  | none, us => us = []
  | some statements, us => ∃ ds, IsClause none statements ds ∧ us = [.node kind ds]

lemma IsElse.clausesOf {kind : Kind} {otherwise : Option (List Passage)} {us : List Tree}
    (h : IsElse kind otherwise us) :
    (Stmt.clausesOf kind us).head?.map (·.statements) = elseValue otherwise ∧
      ∀ k, kind ≠ k → Stmt.clausesOf k us = [] := by
  rcases otherwise with _ | body
  · obtain rfl : us = [] := h
    simp [elseValue]
  · obtain ⟨ds, hds, rfl⟩ := h
    simp +contextual [elseValue, hds.statements]

/-- What follows the last clause with a condition: an `else`, or the end of the chain. -/
lemma otherwise_line (otherwise : Option (List Passage)) {close : Kind} (hclose : IsCommand close)
    (helse : terminators.contains .elseKw = true) (hc : terminators.contains close = true)
    (hj : j ≤ maxDepth) (r : Text) :
    ∃ c, LineOf j c (elseText j otherwise ++ (commandLine j close [] ++ r)) ∧
      EndsAt terminators j j c := by
  rcases otherwise with _ | body
  · refine ⟨commandContent close [] r, ?_, endsAt_command hclose rfl hc r⟩
    rw [elseText, List.nil_append]
    exact lineOf_command close [] r hj
  · refine ⟨commandContent .elseKw [] (textAll j body ++ (commandLine j close [] ++ r)), ?_,
      endsAt_command (by decide) rfl helse _⟩
    rw [elseText, List.append_assoc]
    exact lineOf_command .elseKw [] _ hj

/-- A step over the clauses of a chain that goes on at an `else` and ends at the command that closes
the chain. -/
structure StepsOver (levels : Nat) (terminators : KindSet) (close kind : Kind)
    (step : Bool → Parser (ForInStep Bool)) : Prop where
  good : ∀ x ⦃s : ParserState⦄, s.Good → ((step x).after s).Good
  advances : Advances (fun _ => Any) step
  close : ∀ (j : Nat) (r : Text) (afterElse : Bool) (pre : List Tree),
    Course (LineAt j j (commandContent close [] r)) pre (step afterElse) (.done afterElse) (· = pre)
      (LineAt j j (commandContent close [] r))
  otherwise : ∀ ⦃j : Nat⦄ ⦃r : Text⦄ ⦃pre : List Tree⦄ ⦃V : List Tree → Prop⦄ ⦃q : Scanner → Prop⦄,
    Course (LineAt j j (commandContent .elseKw [] r)) pre
      (clause levels (statement levels) kind false terminators) () V q →
    Course (LineAt j j (commandContent .elseKw [] r)) pre (step false) (.yield true) V q

/-- The clause of an `else`, up to the end of the chain. -/
lemma StepsOver.else_course {close kind : Kind} {step : Bool → Parser (ForInStep Bool)}
    (hstep : StepsOver levels terminators close kind step) (hclose : IsCommand close)
    (hc : terminators.contains close = true) (hterm : ClauseOnly terminators)
    (hl : j + levels ≤ maxDepth) {otherwise : Option (List Passage)}
    (hwell : WellFormedElse otherwise) (hread : ∀ body ∈ otherwise, ReadsAll body)
    (hd : depthElse otherwise + 1 < levels) (r : Text) :
    Course (Ahead j (elseText j otherwise ++ (commandLine j close [] ++ r))) pre (loop step false)
      otherwise.isSome (fun ts => ∃ us, IsElse kind otherwise us ∧ ts = pre ++ us)
      (LineAt j j (commandContent close [] r)) := by
  have hline : LineOf j (commandContent close [] r) (commandLine j close [] ++ r) :=
    lineOf_command close [] r (by omega)
  rcases otherwise with _ | body
  · rw [elseText, List.nil_append, ahead_eq hline]
    refine (hstep.close j r false pre).loop_done.mono ?_
    rintro _ rfl
    exact ⟨[], rfl, by simp⟩
  · have hfirst : LineOf j
        (commandContent .elseKw [] (textAll j body ++ (commandLine j close [] ++ r)))
        (elseText j (some body) ++ (commandLine j close [] ++ r)) := by
      rw [elseText, List.append_assoc]
      exact lineOf_command .elseKw [] _ (by omega)
    have hstops : EndsAt terminators j j (commandContent close [] r) :=
      endsAt_command hclose rfl hc r
    have hnone : (none : Option Text).all isWord = true := rfl
    rw [ahead_eq hfirst]
    refine Course.loop_yield hstep.good hstep.advances (fun _ _ => trivial)
      (hstep.otherwise
        (clause_course hwell (hread body rfl) hd hl hterm hline le_rfl hstops (by decide) kind
        hnone)) ?_
    rintro _ ⟨ds, hds, rfl⟩
    refine (hstep.close j r true _).loop_done.mono ?_
    rintro _ rfl
    exact ⟨[.node kind ds], ⟨ds, hds, rfl⟩, rfl⟩

/-! ### Chains of `if` -/

lemma stepsOver_if : StepsOver levels terminators .endifKw .elseClause
    (ifStep (statement levels) levels terminators) where
  good _ _ hg := Rule.good _ hg
  advances := advances_ifStep (statement levels) levels terminators
  close _ _ _ _ := Course.peekKeyword (by decide) rfl (.pure rfl)
  otherwise j r pre V q h := by
    refine Course.peekKeyword (by decide) rfl ?_
    refine Course.bind (.pure rfl) ?_
    rintro _ rfl
    exact h.bind fun _ hts => .pure hts

/-- The trees of the clauses behind the first one. -/
structure IsIfRest (elseIfs : List (Text × List Passage)) (otherwise : Option (List Passage))
    (us : List Tree) : Prop where
  first : Stmt.clausesOf .ifClause us = []
  elseIfs : Stmt.clausesOf .elseIfClause us = clauseValues elseIfs
  otherwise : (Stmt.clausesOf .elseClause us).head?.map (·.statements) = elseValue otherwise

section
variable {otherwise : Option (List Passage)} (hterm : ClauseOnly terminators)
  (hif : ∀ k ∈ [Kind.elseifKw, .elseKw, .endifKw], terminators.contains k = true)
  (hl : j + levels ≤ maxDepth)
include hif hl

omit hif in
lemma lineOf_clause (name : Text) (statements : List Passage) (more : List (Text × List Passage))
    (u : Text) :
    LineOf j (commandContent .elseifKw (spacedVariable name)
      (textAll j statements ++ (clausesText j more ++ u)))
      (clausesText j ((name, statements) :: more) ++ u) := by
  rw [clausesText, List.append_assoc, List.append_assoc]
  exact lineOf_command .elseifKw (spacedVariable name) _ (by omega)

/-- The line behind a clause. -/
lemma clauses_line (elseIfs : List (Text × List Passage)) (otherwise : Option (List Passage))
    (r : Text) :
    ∃ c, LineOf j c
      (clausesText j elseIfs ++ (elseText j otherwise ++ (commandLine j .endifKw [] ++ r))) ∧
      EndsAt terminators j j c := by
  rcases elseIfs with _ | ⟨⟨name, statements⟩, more⟩
  · rw [clausesText, List.nil_append]
    exact otherwise_line otherwise (by decide) (hif _ (by simp)) (hif _ (by simp)) (by omega) r
  · exact ⟨_, lineOf_clause hl name statements more _,
      endsAt_command (by decide) rfl (hif _ (by simp)) _⟩

include hterm

/-- The clauses behind the first one, up to the end of the chain. -/
lemma clauses_course (hwell : WellFormedElse otherwise) (hread : ∀ body ∈ otherwise, ReadsAll body)
    (hd : depthElse otherwise + 1 < levels) (r : Text) :
    ∀ {elseIfs : List (Text × List Passage)}, WellFormedClauses elseIfs →
      (∀ clause ∈ elseIfs, ReadsAll clause.2) → depthPairs elseIfs + 1 < levels → ∀ pre : List Tree,
      Course (Ahead j
        (clausesText j elseIfs ++ (elseText j otherwise ++ (commandLine j .endifKw [] ++ r)))) pre
        (loop (ifStep (statement levels) levels terminators) false) otherwise.isSome
        (fun ts => ∃ us, IsIfRest elseIfs otherwise us ∧ ts = pre ++ us)
        (LineAt j j (commandContent .endifKw [] r)) := by
  intro elseIfs
  induction elseIfs with
  | nil =>
    intro _ _ _ pre
    rw [clausesText, List.nil_append]
    refine (stepsOver_if.else_course (by decide) (hif _ (by simp)) hterm hl hwell hread hd r).mono
      ?_
    rintro _ ⟨us, hus, rfl⟩
    obtain ⟨h1, h2⟩ := hus.clausesOf
    exact ⟨us, ⟨h2 _ (by decide), by simp [h2 .elseIfClause (by decide), clauseValues], h1⟩, rfl⟩
  | cons clause more ih =>
    obtain ⟨name, statements⟩ := clause
    intro hclauses hreads hdepth pre
    obtain ⟨hname, hstatements, hmore⟩ := hclauses
    simp only [depthPairs] at hdepth
    obtain ⟨c, hline, hstops⟩ := clauses_line hif hl more otherwise r
    have hfirst :=
      lineOf_clause hl name statements more
        (elseText j otherwise ++ (commandLine j .endifKw [] ++ r))
    have hsome : (some name).all isWord = true := by simpa using hname
    have hstep : Course
        (LineAt j j (commandContent .elseifKw (spacedVariable name) (textAll j statements ++
        (clausesText j more ++ (elseText j otherwise ++ (commandLine j .endifKw [] ++ r)))))) pre
        (ifStep (statement levels) levels terminators false) (.yield false)
        (fun ts => ∃ ds, IsClause (some name) statements ds ∧ ts = pre ++ [.node .elseIfClause ds])
        (LineAt j j c) := by
      refine Course.peekKeyword (by decide) rfl ?_
      refine Course.bind (.pure rfl) ?_
      rintro _ rfl
      exact (clause_course hstatements (hreads (name, statements) (by simp)) (by omega) hl hterm
        hline le_rfl hstops (by decide) .elseIfClause hsome).bind fun _ hts => .pure hts
    rw [ahead_eq hfirst]
    refine Course.loop_yield (I := fun _ => Any) (fun _ _ hg => Rule.good _ hg)
      (advances_ifStep (statement levels) levels terminators) (fun _ _ => trivial) hstep ?_
    rintro _ ⟨ds, hds, rfl⟩
    rw [← ahead_eq hline]
    refine (ih hmore (fun clause h => hreads clause (by simp [h])) (by omega) _).mono ?_
    rintro _ ⟨us, hus, rfl⟩
    refine ⟨.node .elseIfClause ds :: us, ⟨?_, ?_, ?_⟩, by simp⟩
    · simp [hus.first]
    · simp [hus.elseIfs, hds.condition, hds.statements, clauseValues]
    · simp [hus.otherwise]

end

lemma clauseOnly_if : ClauseOnly ifTerminators := by
  intro k
  cases k <;> decide

lemma clauseOnly_once : ClauseOnly onceTerminators := by
  intro k
  cases k <;> decide

lemma contains_union_right (s : KindSet) {t : KindSet} {k : Kind} (h : t.contains k = true) :
    (s.union t).contains k = true := by
  rw [KindSet.contains_union, h, Bool.or_true]

/-- The node of a construct that says itself what it turned out to be. -/
lemma Course.construct {p : Parser Kind} {V : List Tree → Prop} {q q' : Scanner → Prop}
    (h : Course q [] p k V q') : Course q pre (nodeOf p >>= fun _ => pure ()) ()
      (fun ts => ∃ us, V us ∧ ts = pre ++ [.node k us]) q' :=
  h.nodeOf.bind fun _ hts => .pure hts

/-- All clauses of an `if` and its end. -/
lemma ifStatement_course {condition : Text} {body : List Passage}
    {elseIfs : List (Text × List Passage)} {otherwise : Option (List Passage)}
    (hwell : (ifChain condition body elseIfs otherwise).WellFormed) (hbody : ReadsAll body)
    (helseIfs : ∀ clause ∈ elseIfs, ReadsAll clause.2)
    (hotherwise : ∀ statements ∈ otherwise, ReadsAll statements)
    (hd : (ifChain condition body elseIfs otherwise).depth < levels) (hl : j + levels ≤ maxDepth)
    (hterm : ClauseOnly terminators) (hr : LineOf j' c r) (hj : j' ≤ j) :
    Course (LineAt j j (commandContent .ifKw (spacedVariable condition) (textAll j body ++
        (clausesText j elseIfs ++ (elseText j otherwise ++ (commandLine j .endifKw [] ++ r)))))) []
      (ifStatement levels (statement levels) terminators) ()
        (ifChain condition body elseIfs otherwise).Means (LineAt j j' c) := by
  obtain ⟨hcondition, hwell, hwellIfs, hwellElse⟩ := hwell
  simp only [depth] at hd
  have hinner : ClauseOnly (terminators.union ifTerminators) := hterm.union clauseOnly_if
  have hif : ∀ k ∈ [Kind.elseifKw, .elseKw, .endifKw],
      (terminators.union ifTerminators).contains k = true := by
    intro k hk
    refine contains_union_right _ ?_
    revert hk
    cases k <;> decide
  obtain ⟨c₁, hline, hstops⟩ := clauses_line hif hl elseIfs otherwise r
  have hsome : (some condition).all isWord = true := by simpa using hcondition
  have hclauses :=
    clauses_course hinner hif hl hwellElse hotherwise (by omega) r hwellIfs helseIfs (by omega)
  rw [ahead_eq hline] at hclauses
  unfold ifStatement
  refine (Course.construct (k := .ifStmt) (V := fun us => Stmt.ofTree? (.node .ifStmt us) =
    some (ifChain condition body elseIfs otherwise).value) ?_).mono ?_
  · refine (clause_course hwell hbody (by omega) hl hinner hline le_rfl hstops (by decide) .ifClause
      hsome).bind ?_
    rintro _ ⟨ds, hds, rfl⟩
    refine (hclauses _).bind ?_
    rintro _ ⟨us, hus, rfl⟩
    refine (closeWith_course (by decide) .ifStmt _ hr hj).mono ?_
    rintro _ ⟨t1, t2, t3, t4, rfl⟩
    rw [Stmt.ofTree?]
    simp [hus.first, hus.elseIfs, hus.otherwise, hds.condition, hds.statements, value]
  · rintro _ ⟨us, hus, rfl⟩
    exact ⟨_, hus, rfl⟩

lemma reads_ifChain {condition : Text} {body : List Passage} {elseIfs : List (Text × List Passage)}
    {otherwise : Option (List Passage)}
    (hwell : (ifChain condition body elseIfs otherwise).WellFormed) (hbody : ReadsAll body)
    (helseIfs : ∀ clause ∈ elseIfs, ReadsAll clause.2)
    (hotherwise : ∀ statements ∈ otherwise, ReadsAll statements) :
    (ifChain condition body elseIfs otherwise).Reads := by
  rintro (_ | levels) j terminators r j' c hd hl hterm hr hf
  · omega
  have hfirst := lineOf_command (j := j) .ifKw (spacedVariable condition) (textAll j body ++
    (clausesText j elseIfs ++ (elseText j otherwise ++ (commandLine j .endifKw [] ++ r))))
      (by omega)
  have htext : (ifChain condition body elseIfs otherwise).text j ++ r =
      commandLine j .ifKw (spacedVariable condition) ++ (textAll j body ++
        (clausesText j elseIfs ++ (elseText j otherwise ++ (commandLine j .endifKw [] ++ r)))) := by
    simp [text]
  rw [htext, ahead_eq hfirst, ahead_eq hr]
  refine statement_command (by decide) (Course.peekKeyword (by decide) rfl ?_)
  exact ifStatement_course hwell hbody helseIfs hotherwise (by omega) (by omega) hterm hr hf.level

/-! ### Chains of `once` -/

lemma stepsOver_once : StepsOver levels terminators .endonceKw .onceElseClause
    (onceStep (statement levels) levels terminators) where
  good _ _ hg := Rule.good _ hg
  advances := advances_onceStep (statement levels) levels terminators
  close _ _ _ _ := Course.peekKeyword (by decide) rfl (.pure rfl)
  otherwise j r pre V q h := by
    refine Course.peekKeyword (by decide) rfl ?_
    refine Course.bind (.pure rfl) ?_
    rintro _ rfl
    exact h.bind fun _ hts => .pure hts

/-- The first clause of a `once`, with a condition or without. -/
lemma onceClause_course {body : List Passage} (hwell : WellFormedAll body) (hread : ReadsAll body)
    (hd : depthAll body + 1 < levels) (hl : j + levels ≤ maxDepth) (hterm : ClauseOnly terminators)
    (hr : LineOf j' c r) (hj : j' ≤ j) (hend : EndsAt terminators j j' c) {condition : Option Text}
    (hc : condition.all isWord = true) :
    Course (LineAt j j (commandContent .onceKw (onceCondition condition) (textAll j body ++ r))) pre
      (onceClause levels (statement levels) terminators) ()
      (fun ts => ∃ ds, IsClause condition body ds ∧ ts = pre ++ [.node .onceClause ds])
        (LineAt j j' c) := by
  unfold onceClause onceCommand
  refine Course.node .onceClause ?_
  simp only [bind_assoc]
  rcases condition with _ | name
  · have hfaces : Faces .command .commandEnd
        (Midline (.nested j) (">>".toList ++ [] ++ '\n' :: (textAll j body ++ r))) :=
      Midline.faces (facing_commandEnd (.inr (.inr rfl)))
    rw [List.append_nil] at hfaces
    refine (commandStart_course (b := []) (by decide) rfl (endsWord_rest [] rfl _)
      (unspaced_commandEnd _)).bind ?_
    rintro _ ⟨t1, t2, -, -, rfl⟩
    refine (Course.eat_other hfaces (by decide) (by decide)).bind ?_
    rintro _ rfl
    rw [if_neg (by simp)]
    exact clauseBody_course hwell hread hd hl hterm hr hj hend
      ⟨by simp [Expr.ofAll_cons], by simp [Stmt.ofAll_cons]⟩
  · have htext : commandContent .onceKw (onceCondition (some name)) (textAll j body ++ r) =
        "<<".toList ++ (Kind.onceKw.chars ++ ([' '] ++ (Kind.ifKw.chars ++ ([' '] ++
          ('$' :: (name ++ (">>".toList ++ '\n' :: (textAll j body ++ r)))))))) := by
      have hif : Kind.ifKw.chars = "if".toList := rfl
      simp [commandContent, onceCondition, spacedVariable, hif]
    have hspace : ∀ t : Text, Text.EndsWord ([' '] ++ t) := by
      rintro t _ ⟨⟩
      decide
    have hif : Offers .command .ifKw Kind.ifKw.chars
        (Midline (.nested j) (Kind.ifKw.chars ++ [' '] ++
        ('$' :: (name ++ (">>".toList ++ '\n' :: (textAll j body ++ r))))))
        (Midline (.nested j)
          ('$' :: (name ++ (">>".toList ++ '\n' :: (textAll j body ++ r))))) := by
      refine Midline.offers (facing_commandKeyword (by decide) rfl (hspace _) ?_) (by decide)
      rintro _ ⟨⟩
      decide
    rw [List.append_assoc] at hif
    have hname : isWord name = true := by simpa using hc
    rw [htext]
    refine (commandStart_course (by decide) rfl (hspace _) (unspaced_keyword (by decide) _)).bind ?_
    rintro _ ⟨t1, t2, -, -, rfl⟩
    refine (Course.eat hif (by decide)).bind ?_
    rintro _ ⟨t3, -, -, rfl⟩
    rw [if_pos rfl, bind_assoc]
    refine (condition_course hname (by omega)).step ?_
    rintro _ ⟨t, rfl, ht⟩
    exact clauseBody_course hwell hread hd hl hterm hr hj hend
      ⟨by simp [Expr.ofAll_cons, ht, Term.value, variableValue],
        by simp [Stmt.ofAll_cons, Stmt.eq_none_of_expr ht]⟩

/-- All clauses of a `once` and its end. -/
lemma onceStatement_course {condition : Option Text} {body : List Passage}
    {otherwise : Option (List Passage)} (hwell : (onceChain condition body otherwise).WellFormed)
    (hbody : ReadsAll body) (hotherwise : ∀ statements ∈ otherwise, ReadsAll statements)
    (hd : (onceChain condition body otherwise).depth < levels) (hl : j + levels ≤ maxDepth)
    (hterm : ClauseOnly terminators) (hr : LineOf j' c r) (hj : j' ≤ j) :
    Course (LineAt j j (commandContent .onceKw (onceCondition condition) (textAll j body ++
        (elseText j otherwise ++ (commandLine j .endonceKw [] ++ r))))) []
      (onceStatement levels (statement levels) terminators) ()
        (onceChain condition body otherwise).Means (LineAt j j' c) := by
  obtain ⟨hcondition, hwell, hwellElse⟩ := hwell
  simp only [depth] at hd
  have hinner : ClauseOnly (terminators.union onceTerminators) := hterm.union clauseOnly_once
  have helse :=
    contains_union_right terminators (by decide : onceTerminators.contains .elseKw = true)
  have hclose :=
    contains_union_right terminators (by decide : onceTerminators.contains .endonceKw = true)
  obtain ⟨c₁, hline, hstops⟩ :=
    otherwise_line (j := j) otherwise (by decide) helse hclose (by omega) r
  unfold onceStatement
  refine (Course.construct (k := .onceStmt) (V := fun us => Stmt.ofTree? (.node .onceStmt us) =
    some (onceChain condition body otherwise).value) ?_).mono ?_
  · refine (onceClause_course hwell hbody (by omega) hl hinner hline le_rfl hstops hcondition).bind
      ?_
    rintro _ ⟨ds, hds, rfl⟩
    rw [← ahead_eq hline]
    refine (stepsOver_once.else_course (by decide) hclose hinner hl hwellElse hotherwise
      (by omega) r).bind ?_
    rintro _ ⟨us, hus, rfl⟩
    refine (closeWith_course (by decide) .onceStmt _ hr hj).mono ?_
    rintro _ ⟨t1, t2, t3, t4, rfl⟩
    obtain ⟨h1, h2⟩ := hus.clausesOf
    have h3 := h2 .onceClause (by decide)
    rw [Stmt.ofTree?]
    simp [h1, h3, hds.condition, hds.statements, value]
  · rintro _ ⟨us, hus, rfl⟩
    exact ⟨_, hus, rfl⟩

lemma reads_onceChain {condition : Option Text} {body : List Passage}
    {otherwise : Option (List Passage)} (hwell : (onceChain condition body otherwise).WellFormed)
    (hbody : ReadsAll body) (hotherwise : ∀ statements ∈ otherwise, ReadsAll statements) :
    (onceChain condition body otherwise).Reads := by
  rintro (_ | levels) j terminators r j' c hd hl hterm hr hf
  · omega
  have hfirst := lineOf_command (j := j) .onceKw (onceCondition condition) (textAll j body ++
    (elseText j otherwise ++ (commandLine j .endonceKw [] ++ r))) (by omega)
  have htext : (onceChain condition body otherwise).text j ++ r =
      commandLine j .onceKw (onceCondition condition) ++ (textAll j body ++
        (elseText j otherwise ++ (commandLine j .endonceKw [] ++ r))) := by
    simp [text]
  have hrest : (onceCondition condition).head?.all (· = ' ') = true := by cases condition <;> rfl
  rw [htext, ahead_eq hfirst, ahead_eq hr]
  refine statement_command (by decide) (Course.peekKeyword (by decide) hrest ?_)
  exact onceStatement_course hwell hbody hotherwise (by omega) (by omega) hterm hr hf.level

end Passage

end DialogueScript
