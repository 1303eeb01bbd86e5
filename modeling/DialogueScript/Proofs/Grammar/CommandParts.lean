import DialogueScript.Proofs.Grammar.LineParts

/-!
The parts that the rules for commands make. What is missing in front of the `>>` is reported there
at the latest.
-/

set_option synthInstance.maxSize 4096

namespace DialogueScript

namespace Parser

open ParserState

variable {flat : Bool} {s : ParserState}

/-! ### Beginning and end -/

instance : Builds Reported flat commandStart := by
  unfold commandStart
  infer_instance

instance : Builds Reported flat commandClose := by
  unfold commandClose
  infer_instance

instance : ReportsOwed .expr commandClose := by
  unfold commandClose
  infer_instance

lemma finds_name : Finds Reported (IsNode .name) (name nameRecovery) := by
  refine fun _ => (makes_name (by decide)).mono ?_
  rintro - ts - ⟨ds, rfl⟩
  exact ⟨_, List.mem_singleton.2 rfl, ds, rfl⟩

instance : Builds Reported false (name nameRecovery) := .of_makes fun _ => makes_name (by decide)

/-! ### Values -/

lemma makes_commandVariable : Makes (Owes .expr) s commandVariable fun _ ts _ =>
    NodeOf .variableExpr ts := by
  have := alwaysReports_errorRecover .expr "expected a variable"
    (show nameRecovery.contains .errorToken = false by decide)
  unfold commandVariable
  refine .isAt ?_
  split
  · exact makes_variableExpr
  · exact .of_alwaysReports

instance : Builds Reported flat eatEquals := by
  unfold eatEquals
  infer_instance

instance : Carries (Owes .expr) (Owes .expr) eatEquals := by
  unfold eatEquals
  infer_instance

/-- A variable, and behind it trees with a value among them, of which more is known. -/
def Assigned (Q : List Tree → Prop) (ts : List Tree) : Prop :=
  ∃ as ds bs, ts = as ++ .node .variableExpr ds :: bs ∧ (∃ t ∈ bs, IsExpr t) ∧ Q bs

/-- A command with a variable and, behind it, a value. -/
lemma makes_assigned {p : Parser Unit} {Q : List Tree → Prop} [Readable p]
    [Carries (Owes .expr) Reported p]
    (h : ∀ s, Makes Reported s p fun _ ts _ => (∃ t ∈ ts, IsExpr t) ∧ Q ts) :
    Makes Reported s (commandStart >>= fun _ => commandVariable >>= fun _ => p) fun _ ts _ =>
      Assigned Q ts := by
  refine .bind (E := Reported) (Builds.any s) fun _ as u _ => ?_
  refine .bind makes_commandVariable fun _ ts v hts => (h v).mono fun _ bs _ hbs => ?_
  obtain ⟨ds, rfl⟩ := hts
  exact ⟨as, ds, bs, rfl, hbs⟩

lemma Assigned.hasParts {Q : List Tree → Prop} {cs : List Tree} (h : Assigned Q cs)
    (hcs : ∀ c ∈ cs, c.Complete) :
    (variableAmong? cs).isSome = true ∧ (Expr.ofAll cs)[1]?.isSome = true := by
  obtain ⟨as, ds, bs, rfl, ⟨_, ht, k, es, hk, rfl⟩, -⟩ := h
  have htwo : 2 ≤ (Expr.ofAll (as ++ .node .variableExpr ds :: bs)).length :=
    Tree.ofAll_two (k := .variableExpr) rfl hk rfl ht
  refine ⟨Tree.variableAmong?_isSome hcs (List.mem_append_right as List.mem_cons_self), ?_⟩
  rw [isSome_getElem?]
  exact htwo

section
variable (levels : Nat)

instance : Builds (Owes .expr) false (expr levels) := .of_makes (makes_expr levels)

instance : Builds Reported false (expr levels >>= fun _ => commandClose) :=
  .seq (E := Owes .expr) inferInstance fun _ => inferInstance

instance : ReportsOwed .command (expr levels) := .terms (m := .expr) inferInstance rfl rfl

/-- A variable, an operator and a value. -/
lemma makes_setCommand : Makes Reported s (setCommand levels) fun _ ts _ => NodeOf .setStmt ts := by
  have hvalue : Finds Reported IsExpr (expr levels >>= fun _ => commandClose) :=
    .before (finds_expr levels)
  have hrest (s : ParserState) : Makes Reported s (setValue levels) fun _ ts _ =>
      (∃ t ∈ ts, IsExpr t) ∧
        ∃ token, Tree.leaf token ∈ ts ∧ (AssignOp.ofKind? token.kind).isSome = true := by
    unfold setValue
    dsimp only
    refine .peekKind ?_
    split
    · next hop =>
      have hne : (s.look .command).kindAt .command ≠ .eof := by
        rw [kindAt_look]
        rintro heq
        simp [heq, AssignOp.ofKind?] at hop
      refine .bind (E := Reported) (Makes.advance .command hne) fun _ ts u hts => ?_
      obtain ⟨⟨token, ht, rfl⟩, -⟩ := hts
      rw [kindAt_look] at ht
      refine (hvalue u).mono fun _ us _ ⟨t, hmem, hexpr⟩ => ?_
      exact ⟨⟨t, List.mem_cons_of_mem _ hmem, hexpr⟩, token, List.mem_cons_self, ht ▸ hop⟩
    · exact .of_error .command
  have : Carries (Owes .expr) Reported (setValue levels) := by
    unfold setValue
    infer_instance
  unfold setCommand
  refine .asNode (makes_assigned hrest) ?_
  rintro - cs - hcs hassigned
  obtain ⟨hvariable, hvalue⟩ := hassigned.hasParts hcs
  obtain ⟨as, ds, bs, rfl, -, token, ht, hop⟩ := hassigned
  have hoperator := Tree.findSome?_tokensAmong (f := fun t => AssignOp.ofKind? t.kind)
    (List.mem_append_right as (List.mem_cons_of_mem (.node .variableExpr ds) ht)) hop
  simp only [Tree.hasParts, hvariable, hoperator, hvalue, Bool.and_true]

lemma makes_callCommand :
    Makes Reported s (callCommand levels) fun _ ts _ => NodeOf .callStmt ts := by
  have hcall : Finds (Owes .expr) (IsNode .callExpr) (callTarget levels) := by
    refine fun s => .peekRange (.bind (makes_expr levels _) fun kind ts u hkind => ?_)
    obtain ⟨k, hk, rfl, cs, rfl⟩ := hkind
    by_cases hcall : k = .callExpr
    · subst hcall
      exact .pure ⟨_, by simp, cs, rfl⟩
    · refine .of_problem ?_
      unfold callProblem
      split
      · next heq => simp at heq
      · next heq => exact absurd (Option.some.inj heq) hcall
      · simp
  rw [callCommand]
  refine Finds.inNode (.behind fun _ => .before hcall) ?_
  rintro cs - _ hc ⟨ds, rfl⟩
  exact Tree.callAmong?_isSome hc

lemma makes_declareCommand : Makes Reported s (declareCommand levels) fun _ ts _ =>
    NodeOf .declareStmt ts := by
  have hannotation : Builds Reported false typeClause := by
    unfold typeClause
    refine .of_makes fun _ => Finds.inNode (.behind fun _ => finds_name) ?_
    rintro cs - _ hc ⟨ds, rfl⟩
    exact Tree.nameAmong?_isSome hc
  have : Carries (Owes .expr) (Owes .expr) typeClause := by
    unfold typeClause
    infer_instance
  have : Carries (Owes .expr) Reported (declareValue levels) := by
    unfold declareValue
    infer_instance
  have hvalue : Finds Reported IsExpr (declareValue levels) := by
    unfold declareValue
    dsimp only
    refine .behind fun _ =>
      .ite (.behind fun _ => .before (finds_expr levels)) (.before (finds_expr levels))
  unfold declareCommand
  refine .asNode
    (makes_assigned (Q := fun _ => True) fun s => (hvalue s).mono fun _ _ _ h => ⟨h, trivial⟩) ?_
  rintro - cs - hcs hassigned
  obtain ⟨hvariable, hvalue⟩ := hassigned.hasParts hcs
  simp only [Tree.hasParts, hvariable, hvalue, Bool.and_true]

/-! ### Jumps -/

lemma makes_jumpCommand :
    Makes Reported s (jumpCommand levels) fun _ ts _ => NodeOf .jumpStmt ts := by
  have hname :
      Finds Reported (fun t => IsNode .name t ∨ IsNode .interpolation t) (name nameRecovery) :=
    fun s => (finds_name s).mono fun _ _ _ ⟨t, ht, hname⟩ => ⟨t, ht, .inl hname⟩
  have hinterpolation : Finds Reported (fun t => IsNode .name t ∨ IsNode .interpolation t)
      (interpolation levels .name) := by
    refine fun _ => (makes_interpolation levels .name).mono ?_
    rintro - ts - ⟨ds, rfl⟩
    exact ⟨_, List.mem_singleton.2 rfl, .inr ⟨ds, rfl⟩⟩
  have htarget :
      Finds Reported (fun t => IsNode .name t ∨ IsNode .interpolation t) (jumpTarget levels) :=
    .behind fun _ => .ite hinterpolation hname
  unfold jumpCommand
  refine Finds.inNode (.behind fun _ => .before htarget) ?_
  rintro cs hcs _ hc (⟨ds, rfl⟩ | ⟨ds, rfl⟩)
  · exact Tree.jumpTarget?_isSome hcs (.inl hc)
  · exact Tree.jumpTarget?_isSome hcs (.inr hc)

instance : Builds Reported false returnCommand := by
  unfold returnCommand
  exact .inNode (fun _ => rfl) inferInstance inferInstance

/-! ### Free-form commands -/

/-- What makes a command's text: text or an interpolation. -/
def IsCommandPart (t : Tree) : Prop := IsToken .commandText t ∨ IsNode .interpolation t

lemma IsCommandPart.partsAmong_ne {cs : List Tree} (h : ∃ t ∈ cs, IsCommandPart t) :
    commandPartsAmong cs ≠ [] := by
  obtain ⟨t, ht, ⟨token, hk, rfl⟩ | ⟨ds, rfl⟩⟩ := h
  · exact Tree.commandPartsAmong_of_token ht hk
  · exact Tree.commandPartsAmong_of_interpolation ht

lemma makes_freeStep {found : Bool} {ts : List Tree}
    (h : TextFound IsCommandPart .commandText found ts s) :
    Makes Reported s (freeStep levels found) fun r us u =>
      TextFound IsCommandPart .commandText r.value (ts ++ us) u := by
  unfold freeStep
  refine .peekKind ?_
  rw [← kindAt_look s .commandText]
  split
  · next hk => exact makes_textToken _ _ _ (fun t ht => .inl (hk ▸ ht)) (by simp [hk])
  · exact makes_textInterpolation _ _ _ _ fun _ ht => .inr ht
  · refine .pure ?_
    rw [List.append_nil]
    refine h.imp id fun hf => ⟨hf.1, ?_⟩
    rw [kindAt_look]
    exact hf.2

instance : Builds Reported false freeRest := by
  unfold freeRest
  dsimp only
  infer_instance

/-- Behind its `<<`, a command has text, or its lack is reported. -/
lemma makes_freeCommand (hk : s.kindAt .statement = .commandStart) :
    Makes Reported s (freeCommand levels) fun _ ts _ => NodeOf .commandStmt ts := by
  have hpart : Makes Reported s.start
      (advance .statement >>= fun _ => freeText levels >>= fun _ => freeRest)
      fun _ ts _ => ∃ t ∈ ts, IsCommandPart t := by
    unfold freeText
    simp only [bind_assoc]
    refine .of_good fun hg =>
      .bind (E := Reported) (Makes.advance .statement (by simp [hk])) fun _ as u hu => ?_
    have hmiddle : u.scanner.lineStart = false := by
      rw [hu.2]
      exact (hg.scanner.takes .statement).midLine (congrArg Kind.isStructural hk)
        (ne_of_eq_of_ne hk (by simp))
    have hloop :
        Makes Reported u (loop (freeStep levels) false) (TextFound IsCommandPart .commandText) :=
      .loop (.inr ⟨rfl, Scanner.commandText_ne_error hmiddle⟩) fun _ _ _ => makes_freeStep levels
    refine .bind (E := Reported) hloop fun found ts v hfound => ?_
    rcases hfound with ⟨rfl, t, ht, hpart⟩ | ⟨rfl, hne⟩
    · rw [if_neg (by simp)]
      refine (Builds.any v).mono fun _ us _ _ => ⟨t, ?_, hpart⟩
      exact List.mem_append_right as (List.mem_append_left us ht)
    · rw [if_pos (by simp)]
      exact .of_unexpected hne
  rw [freeCommand]
  refine .asNode hpart ?_
  rintro - cs - - h
  simpa [Tree.hasParts] using IsCommandPart.partsAmong_ne h

/-! ### Enums -/

lemma makes_enumCase : Makes Reported s (enumCase levels) fun _ ts _ => NodeOf .enumCase ts := by
  unfold enumCase
  dsimp only
  refine Finds.inNode (.behind fun _ => .before finds_name) ?_
  rintro cs - _ hc ⟨ds, rfl⟩
  exact Tree.nameAmong?_isSome hc

instance : Builds Reported false (enumCase levels) := .of_makes fun _ => makes_enumCase levels

instance (cases : Nat) : Builds Reported false (caseLine levels cases) := by
  unfold caseLine caseOr
  infer_instance

lemma builds_caseStep {nesting : Nat} (h : Builds Reported false (caseBlock levels nesting))
    (cases : Nat) :
    Builds Reported false (caseStep levels (caseBlock levels nesting) cases) := by
  have : Readable (caseBlock levels nesting) := ⟨reading_caseBlock levels nesting⟩
  refine (Builds.follow fun k => ?_).2
  rcases caseStepAt_cases levels cases k with ⟨-, hk⟩ | ⟨-, hk⟩ | ⟨-, hk⟩ <;>
    rw [hk] <;> exact ⟨inferInstance, inferInstance⟩

lemma builds_caseBlock (nesting : Nat) : Builds Reported false (caseBlock levels nesting) := by
  induction nesting with
  | zero =>
    rw [caseBlock]
    infer_instance
  | succ nesting ih =>
    have := builds_caseStep levels ih
    have (cases : Nat) : Readable (caseStep levels (caseBlock levels nesting) cases) :=
      ⟨reading_caseStep levels (reading_caseBlock levels nesting) cases⟩
    rw [caseBlock]
    refine .inNode (fun _ => rfl) ⟨reading_caseRun levels (reading_caseBlock levels nesting)⟩ ?_
    unfold caseRun
    infer_instance

/-- A case, or a block with a case in it. -/
def HoldsCase (t : Tree) : Prop :=
  IsNode .enumCase t ∨ ∃ ds, t = .node .block ds ∧ ∃ c ∈ ds, IsNode .enumCase c

lemma HoldsCase.casesAmong_ne {cs : List Tree} (h : ∃ t ∈ cs, HoldsCase t) :
    casesAmong cs ≠ [] := by
  obtain ⟨t, ht, ⟨ds, rfl⟩ | ⟨ds, rfl, _, hc, es, rfl⟩⟩ := h
  · exact Tree.casesAmong_of_case ht
  · exact Tree.casesAmong_of_block ht hc

/-- The first line of a block is a case, since no further block opens there. -/
def CaseRead (cases : Nat) (ts : List Tree) (u : ParserState) : Prop :=
  cases = 0 ∧ (u.kindAt .statement).isStructural = false ∨ ∃ c ∈ ts, IsNode .enumCase c

lemma makes_caseStep {nesting cases : Nat} {ts : List Tree} (h : CaseRead cases ts s) :
    Makes Reported s (caseStep levels (caseBlock levels nesting) cases) fun r us u =>
      CaseRead r.value (ts ++ us) u := by
  have hmore (us : List Tree) (hc : ∃ c ∈ ts, IsNode .enumCase c) : ∃ c ∈ ts ++ us,
      IsNode .enumCase c :=
    hc.imp fun c hc => ⟨List.mem_append_left us hc.1, hc.2⟩
  have := builds_caseBlock levels nesting
  have : Readable (caseBlock levels nesting) := ⟨reading_caseBlock levels nesting⟩
  unfold caseStep
  refine .peekKind ?_
  rw [← kindAt_look s .statement]
  have hlook : CaseRead cases ts (s.look .statement) :=
    h.imp (fun h => ⟨h.1, by rw [kindAt_look]; exact h.2⟩) id
  generalize s.look .statement = u at hlook ⊢
  rcases caseStepAt_cases levels cases (u.kindAt .statement)
    with ⟨-, hk⟩ | ⟨hindent, hk⟩ | ⟨-, hk⟩ <;> rw [hk]
  · exact .pure (by rwa [List.append_nil])
  · have hcase := hlook.resolve_left fun h => by simp [hindent, Kind.isStructural] at h
    refine .bind (E := Reported) (Builds.any u) fun n us v _ => .pure (.inr ?_)
    exact hmore _ hcase
  · unfold caseLine caseOr
    refine .peekCommand ?_
    split
    · refine (makes_enumCase levels).map fun _ us v hus => .inr ?_
      obtain ⟨ds, rfl⟩ := hus
      exact ⟨_, List.mem_append_right ts (List.mem_singleton.2 rfl), ds, rfl⟩
    · exact .of_alwaysReports

/-- A block with cases in it has one among its own lines. -/
lemma makes_caseBlock (nesting : Nat) (hk : s.kindAt .statement = .indent) :
    Makes Reported s (caseBlock levels nesting) fun cases ts _ =>
      cases = 0 ∨ ∃ t ∈ ts, HoldsCase t := by
  rcases nesting with _ | nesting
  · rw [caseBlock]
    exact .pure (.inl rfl)
  · have hreads := reading_caseBlock levels nesting
    have (cases : Nat) : Readable (caseStep levels (caseBlock levels nesting) cases) :=
      ⟨reading_caseStep levels hreads cases⟩
    have : Readable (caseRun levels (caseBlock levels nesting)) := ⟨reading_caseRun levels hreads⟩
    have hrun : Makes Reported s.start (caseRun levels (caseBlock levels nesting)) fun cases ts _ =>
        cases = 0 ∨ ∃ c ∈ ts, IsNode .enumCase c := by
      unfold caseRun
      refine .of_good fun hg =>
        .bind (E := Reported) (Makes.advance .statement (by simp [hk])) fun _ as u hu => ?_
      have hbehind : (u.kindAt .statement).isStructural = false := by
        rw [hu.2]
        exact (congrArg (·.token.kind.isStructural)
          (Scanner.ahead_setDiagnostics _ [] .statement)).trans
          ((hg.scanner.takes .statement).behind_indent hk)
      have hloop :
          Makes Reported u (loop (caseStep levels (caseBlock levels nesting)) 0) CaseRead :=
        .loop (.inl ⟨rfl, hbehind⟩) fun _ _ _ => makes_caseStep levels
      refine .bind (E := Reported) hloop fun cases bs v hcases => ?_
      refine .bind (E := Reported) (Builds.any v) fun _ us w _ => .pure ?_
      exact hcases.imp And.left fun ⟨c, hc, hcase⟩ =>
        ⟨c, List.mem_append_right as (List.mem_append_left _ hc), hcase⟩
    rw [caseBlock]
    refine (Makes.node hrun fun _ _ _ _ _ => rfl).mono ?_
    rintro cases ts - ⟨ds, -, rfl, -, hcases⟩
    exact hcases.imp id fun hcase => ⟨_, List.mem_singleton.2 rfl, .inr ⟨ds, rfl, hcase⟩⟩

lemma makes_enumStep {cases : Nat} {ts : List Tree} (h : cases = 0 ∨ ∃ t ∈ ts, HoldsCase t) :
    Makes Reported s (enumStep levels cases) fun r us _ =>
      r.value = 0 ∨ ∃ t ∈ ts ++ us, HoldsCase t := by
  have hmore (us : List Tree) (hc : ∃ t ∈ ts, HoldsCase t) : ∃ t ∈ ts ++ us, HoldsCase t :=
    hc.imp fun t ht => ⟨List.mem_append_left us ht.1, ht.2⟩
  unfold enumStep
  refine .poll ?_
  rw [if_neg (by simp)]
  refine .peekKind ?_
  rw [← kindAt_look s .statement]
  generalize s.look .statement = u
  unfold enumStepAt caseOr
  split
  · next hk =>
    have hcases : Makes Reported u (casesHere levels) fun n us _ => n = 0 ∨ ∃ t ∈ us, HoldsCase t :=
      makes_caseBlock levels _ hk
    refine hcases.map fun n us v hn => ?_
    rcases h with rfl | hc
    · rcases hn with hn | ⟨t, ht, hcase⟩
      · exact .inl (by simp [hn, ForInStep.value])
      · exact .inr ⟨t, List.mem_append_right ts ht, hcase⟩
    · exact .inr (hmore us hc)
  · refine .peekCommand ?_
    split
    · refine (makes_enumCase levels).map fun _ us v hus => .inr ?_
      obtain ⟨ds, rfl⟩ := hus
      exact ⟨_, List.mem_append_right ts (List.mem_singleton.2 rfl), .inl ⟨ds, rfl⟩⟩
    · exact .pure (h.imp id (hmore []))
  · exact .pure (h.imp id (hmore []))

/-! ### Ends -/

/-- Where an error stands, nothing is closed. -/
lemma makes_closeWith (keyword kind : Kind) (message : String) :
    Makes Reported s (closeWith keyword kind message) fun k ts _ =>
      (k = .error ∨ k = kind ∧ s.kindAt .statement ≠ .errorToken) ∧ ∀ t ∈ ts, t.isNode = false := by
  unfold closeWith
  refine .peekCommand ?_
  split
  · next hk =>
    refine (Builds.tokens (s.look .statement)).answering.mono fun k ts _ ⟨hanswer, hts⟩ => ?_
    rw [answer_bind, answer_bind, answer_pure] at hanswer
    exact ⟨.inr ⟨hanswer, by simp [kindAt_of_commandAt hk]⟩, hts⟩
  · refine (Builds.tokens (s.look .statement)).answering.mono fun k ts _ ⟨hanswer, hts⟩ => ?_
    exact ⟨.inl hanswer, hts⟩

/-- An enum without cases is reported, or it is not closed. -/
lemma makes_enumTail : Makes Reported s (enumTail levels) fun k ts _ =>
    k = .error ∨ k = .enumStmt ∧ ∃ t ∈ ts, HoldsCase t := by
  have hloop : Makes Reported s (loop (enumStep levels) 0) fun cases ts _ =>
      cases = 0 ∨ ∃ t ∈ ts, HoldsCase t :=
    .loop (.inl rfl) fun _ _ _ => makes_enumStep levels
  unfold enumTail enumCases
  rw [bind_assoc]
  refine .bind (E := Reported) hloop fun cases ts u hcases => ?_
  split
  · by_cases hk : u.kindAt .statement = .errorToken
    · refine .bind (E := Reported) (Makes.errorOf .statement _ _) fun _ us v ⟨_, hv⟩ => ?_
      refine (makes_closeWith _ _ _).mono fun k _ _ h => .inl (h.1.resolve_right fun hkind => ?_)
      exact hkind.2 (hv.trans hk)
    · exact .of_unexpected hk
  · next hne =>
    obtain ⟨t, ht, hcase⟩ := hcases.resolve_left hne
    rw [pure_bind]
    refine (makes_closeWith _ _ _).mono fun k us _ h => h.1.imp id fun hkind => ?_
    exact ⟨hkind.1, t, List.mem_append_left us ht, hcase⟩

/-- An enum has its name and a case. -/
instance : Builds Reported false (enumCommand levels) := by
  have hhead : Finds Reported (IsNode .name) enumHead := by
    unfold enumHead enumName
    exact .behind fun _ => .before finds_name
  have hbody (s : ParserState) :
    Makes Reported s (enumHead >>= fun _ => enumTail levels) fun k cs _ =>
      k = .error ∨ k = .enumStmt ∧ (∃ c ∈ cs, IsNode .name c) ∧ ∃ c ∈ cs, HoldsCase c := by
    refine .bind (E := Reported) (hhead s) fun _ ts u hname => ?_
    refine (makes_enumTail levels).mono fun k us _ h => h.imp id fun ⟨hk, t, ht, hcase⟩ =>
      ⟨hk, ?_, t, ?_, hcase⟩
    · exact hname.imp fun c hc => ⟨List.mem_append_left us hc.1, hc.2⟩
    · exact List.mem_append_right ts ht
  rw [enumCommand]
  refine .of_makes fun s =>
    .map (R := fun _ _ _ => True) (Makes.nodeOf (hbody s.start) ?_) fun _ _ _ _ => trivial
  rintro k cs - - (rfl | ⟨rfl, ⟨_, hc, ds, rfl⟩, hcase⟩)
  · rfl
  · simp [Tree.hasParts, Tree.nameAmong?_isSome hc, HoldsCase.casesAmong_ne hcase]

end

end Parser

end DialogueScript
