import DialogueScript.Proofs.Grammar.Graded
import DialogueScript.Proofs.Grammar.CommandParts

/-!
The parts that the rules for statements make, and the order of the clauses in a chain. Which command
stands next is known where its rule is chosen; a clause behind the last one of its chain is
reported.
-/

set_option synthInstance.maxSize 4096

namespace DialogueScript

namespace Parser

open ParserState

variable {flat : Bool} {s : ParserState}

/-! ### Runs of statements -/

instance (terminators : KindSet) : Builds Reported flat (endsStatements terminators) := by
  unfold endsStatements
  refine (Builds.follow fun k => ?_).2
  split <;> exact ⟨inferInstance, inferInstance⟩

instance : Builds Reported false nothingTaken := by
  unfold nothingTaken
  infer_instance

section
variable (statement : KindSet → Parser Unit) [∀ t, Rule (statement t)]
  [∀ t, Builds Reported false (statement t)] (terminators : KindSet)

instance : Builds Reported false (statementStep terminators statement) where
  makes s := by
    have hrun := run_ifStuck (statement terminators) nothingTaken (pure (ForInStep.yield ())) s
    split at hrun
    · exact .of_run (q := statement terminators >>= fun _ => nothingTaken) hrun (Builds.makes s)
    · exact .of_run (q := statement terminators >>= fun _ => pure (ForInStep.yield ())) hrun
        (Builds.makes s)

instance : Builds Reported false (statementList statement terminators) := by
  unfold statementList
  unfold listStep
  infer_instance

instance : Builds Reported false (block statement) := by
  unfold block
  exact .inNode (fun _ => rfl) inferInstance inferInstance

/-! ### Groups -/

section
variable (levels : Nat)

/-- An item of a group has its line. -/
lemma makes_groupItem (mode : Mode) {kind : Kind}
    (hk : ∀ cs, Tree.hasParts kind cs = (nodeAmong? .lineStmt cs).isSome) :
    Makes Reported s (groupItem levels statement mode kind) fun _ ts _ => NodeOf kind ts := by
  have hline : Finds Reported (IsNode .lineStmt) (line levels .text) := by
    refine fun _ => (makes_line levels .text).mono ?_
    rintro - ts - ⟨ds, rfl⟩
    exact ⟨_, List.mem_singleton.2 rfl, ds, rfl⟩
  unfold groupItem itemHead itemBlock
  rw [bind_assoc]
  refine Finds.inNode (.behind fun _ => .before hline) ?_
  rintro cs - _ hc ⟨ds, rfl⟩
  rw [hk]
  exact Tree.nodeAmong?_isSome hc

instance (lineGroup : Bool) (mode : Mode) : Builds Reported flat (groupTail lineGroup mode) := by
  unfold groupTail
  infer_instance

instance (lineGroup : Bool) (mode : Mode) :
    Builds Reported false (groupStep statement levels lineGroup mode) := by
  have : Builds Reported false (groupItem levels statement mode
      (if lineGroup then .lineGroupItem else .shortcutOption)) :=
    .of_makes fun _ =>
      makes_groupItem statement levels mode (by cases lineGroup <;> exact fun _ => rfl)
  refine (Builds.follow fun hadBlock => ⟨⟨fun s hg => ?_⟩, ⟨fun s => ?_⟩⟩).2
  · exact Rule.reads
      (p := groupTail lineGroup (if s.scanner.config.breaksAfter hadBlock lineGroup then
      .afterOption else .statement)) hg
  · exact Builds.makes
      (p := groupTail lineGroup (if s.scanner.config.breaksAfter hadBlock lineGroup then
      .afterOption else .statement)) s

instance (lineGroup : Bool) : Builds Reported false (group levels statement lineGroup) := by
  unfold group
  exact .inNode (by cases lineGroup <;> exact fun _ => rfl) inferInstance inferInstance

/-! ### Clauses -/

instance : Builds Reported false (clauseBody statement terminators) := by
  unfold clauseBody
  infer_instance

/-- A clause with a condition. -/
lemma makes_clause_if {kind : Kind} (hk : ∀ cs, Tree.hasParts kind cs = (Expr.among? cs).isSome) :
    Makes Reported s (clause levels statement kind true terminators) fun _ ts _ =>
      NodeOf kind ts := by
  unfold clause clauseCommand
  simp only [if_true, bind_assoc]
  refine Finds.inNode (.behind fun _ => .before (finds_expr levels)) ?_
  rintro cs - _ hc ⟨k, ds, hexpr, rfl⟩
  rw [hk]
  exact Tree.among?_isSome hc hexpr

/-- A clause without a condition. -/
lemma makes_clause_else {kind : Kind} (hk : ∀ cs, Tree.hasParts kind cs = true) :
    Makes Reported s (clause levels statement kind false terminators) fun _ ts _ =>
      NodeOf kind ts := by
  have : Builds Reported false (clauseCommand levels false) := by
    unfold clauseCommand
    simp only [Bool.false_eq_true, if_false]
    infer_instance
  have hbody : Builds Reported false (clauseCommand levels false >>= fun _ =>
    clauseBody statement terminators) := inferInstance
  exact .asNode (hbody.makes s.start) fun _ cs _ _ _ => hk cs

/-! ### Chains -/

/-- A command starts with `<<` and the keyword that was seen. -/
lemma makes_commandStart {k : Kind} (hk : s.commandAt .statement = some k) (hne : k ≠ .eof) :
    Makes Reported s commandStart fun _ ts _ => ∃ mark keyword : Token,
      mark.kind = .commandStart ∧ keyword.kind = k ∧ ts = [.leaf mark, .leaf keyword] := by
  intro hg _ _
  obtain ⟨keyword, mark, hkeyword, hmark, hinner⟩ := inner_commandStart hg hk hne
  refine ⟨[.leaf mark, .leaf keyword], ⟨hinner, ?_⟩, mark, keyword, hmark, hkeyword, rfl⟩
  simp [Tree.complete_leaf]

/-- Behind the last clause that a chain can have, every further one is reported. -/
lemma makes_ambiguous {α : Type} {f : Unit → Parser α} [Readable (f ())] {afterElse : Bool}
    {message : String} {R : α → List Tree → ParserState → Prop}
    (hk : s.kindAt .statement = .commandStart) (h : afterElse = false → Makes Reported s (f ()) R) :
    Makes Reported s (ambiguous afterElse message >>= f) R := by
  cases afterElse
  · exact h rfl
  · exact .of_unexpected (by simp [hk])

/-- The clauses behind the first one of a chain: any number of further ones, and perhaps a last
one. -/
def Further (further : Kind → Bool) (last : Kind) (afterLast : Bool) (ts : List Tree) : Prop :=
  ∃ ks, (∀ k ∈ ks, further k = true) ∧ Tree.nodeKinds ts = ks ++ if afterLast then [last] else []

section
variable {further : Kind → Bool} {last : Kind} {afterLast : Bool} {ts : List Tree}

lemma Further.nil : Further further last false [] := ⟨[], by simp, rfl⟩

lemma Further.add {k : Kind} {cs : List Tree} (h : Further further last false ts)
    (hk : further k = true) :
    Further further last false (ts ++ [.node k cs]) := by
  obtain ⟨ks, hks, heq⟩ := h
  refine ⟨ks ++ [k], fun j hj => ?_, by simpa [Tree.nodeKinds_append] using heq⟩
  rcases List.mem_append.1 hj with hj | hj
  · exact hks j hj
  · rwa [List.mem_singleton.1 hj]

lemma Further.close {cs : List Tree} (h : Further further last false ts) :
    Further further last true (ts ++ [.node last cs]) := by
  obtain ⟨ks, hks, heq⟩ := h
  exact ⟨ks, hks, by simpa [Tree.nodeKinds_append] using heq⟩

/-- With the tokens of its end, this makes a whole chain. -/
lemma Further.isChain {first : Kind} {ds us : List Tree} (h : Further further last afterLast ts)
    (hlast : further last = false) (hus : ∀ t ∈ us, t.isNode = false) :
    Tree.isChain first further last ([.node first ds] ++ (ts ++ us)) = true := by
  obtain ⟨ks, hks, heq⟩ := h
  have hkinds : Tree.nodeKinds ([.node first ds] ++ (ts ++ us)) =
      first :: (ks ++ if afterLast then [last] else []) := by
    rw [Tree.nodeKinds_append, Tree.nodeKinds_append, Tree.nodeKinds_of_tokens hus, heq]
    simp
  have hdrop : (ks ++ if afterLast then [last] else []).dropWhile further = if afterLast then [last]
      else [] := by
    rw [List.dropWhile_append_of_pos hks]
    cases afterLast <;> simp [hlast]
  simp only [Tree.isChain, hkinds, hdrop]
  cases afterLast <;> simp

/-- A chain is a first clause, further ones, and its end; without its end, it is an error. -/
lemma builds_chain {first kind keyword : Kind} {message : String} {p : Parser Unit}
    {step : Bool → Parser (ForInStep Bool)} [Readable p] [∀ b, Readable (step b)]
    (hk : ∀ cs, Tree.hasParts kind cs = Tree.isChain first further last cs)
    (hlast : further last = false) (hp : Makes Reported s.start p fun _ ts _ => NodeOf first ts)
    (hstep : ∀ (s : ParserState) (b : Bool) (ts : List Tree), Further further last b ts →
      Makes Reported s (step b) fun r us _ => Further further last r.value (ts ++ us)) :
    Makes Reported s
      (nodeOf (p >>= fun _ => loop step false >>= fun _ => closeWith keyword kind message))
      fun _ _ _ => True := by
  have hloop (s : ParserState) : Makes Reported s (loop step false) fun b ts _ =>
      Further further last b ts :=
    .loop .nil fun b ts u => hstep u b ts
  have hbody : Makes Reported s.start (p >>= fun _ => loop step false >>= fun _ =>
      closeWith keyword kind message) fun k cs _ =>
        k = .error ∨ k = kind ∧ Tree.isChain first further last cs = true := by
    refine .bind (E := Reported) hp fun _ ts u hfirst => ?_
    obtain ⟨ds, rfl⟩ := hfirst
    refine .bind (E := Reported) (hloop u) fun b ts v hts => ?_
    refine (makes_closeWith keyword kind message).mono fun k us w h => h.1.imp id fun hkind =>
      ⟨hkind.1, ?_⟩
    exact hts.isChain hlast h.2
  refine (Makes.nodeOf hbody ?_).mono fun _ _ _ _ => trivial
  rintro k cs - - (rfl | ⟨rfl, hchain⟩)
  · rfl
  · rwa [hk]

end

/-- An `else` is the last clause that its chain can have. -/
lemma makes_lastClause {further : Kind → Bool} {last : Kind} {message : String} {afterElse : Bool}
    {ts : List Tree} (hlast : ∀ cs, Tree.hasParts last cs = true)
    (hk : s.kindAt .statement = .commandStart) (h : Further further last afterElse ts) :
    Makes Reported s (do
      ambiguous afterElse message
      clause levels statement last false terminators
      return ForInStep.yield true) fun r us _ => Further further last r.value (ts ++ us) := by
  refine makes_ambiguous hk fun hafter =>
    (makes_clause_else statement terminators levels hlast).map ?_
  rintro - us - ⟨cs, rfl⟩
  subst hafter
  exact h.close

/-- The further clauses of an `if` chain. -/
lemma makes_ifStep {afterElse : Bool} {ts : List Tree}
    (h : Further (· = .elseIfClause) .elseClause afterElse ts) :
    Makes Reported s (ifStep statement levels terminators afterElse) fun r us _ =>
      Further (· = .elseIfClause) .elseClause r.value (ts ++ us) := by
  unfold ifStep
  refine .peekCommand ?_
  split
  · next hk =>
    have hk' := (kindAt_look s .statement).trans (kindAt_of_commandAt hk)
    refine makes_ambiguous hk' fun hafter =>
      (makes_clause_if statement terminators levels fun _ => rfl).map ?_
    rintro - us - ⟨cs, rfl⟩
    subst hafter
    exact h.add rfl
  · next hk =>
    exact makes_lastClause statement terminators levels (fun _ => rfl)
      ((kindAt_look s .statement).trans (kindAt_of_commandAt hk)) h
  · exact .pure (by rwa [List.append_nil])

instance : Builds Reported false (ifStatement levels statement terminators) := by
  unfold ifStatement
  refine .of_makes (R := fun _ _ _ _ => True) fun s => .map (builds_chain (fun _ => rfl) rfl
    (makes_clause_if statement _ levels fun _ => rfl) fun _ _ _ => makes_ifStep statement _ levels)
    fun _ _ _ _ => trivial

/-- The further clause of a `once` chain. -/
lemma makes_onceStep {afterElse : Bool} {ts : List Tree}
    (h : Further (fun _ => false) .onceElseClause afterElse ts) :
    Makes Reported s (onceStep statement levels terminators afterElse) fun r us _ =>
      Further (fun _ => false) .onceElseClause r.value (ts ++ us) := by
  unfold onceStep
  refine .peekCommand ?_
  split
  · next hk =>
    exact makes_lastClause statement terminators levels (fun _ => rfl)
      ((kindAt_look s .statement).trans (kindAt_of_commandAt hk)) h
  · exact .pure (by rwa [List.append_nil])

/-- The first clause of a `once` chain has a condition if it has an `if`. -/
lemma makes_onceClause (hk : s.commandAt .statement = some .onceKw) :
    Makes Reported s (onceClause levels statement terminators) fun _ ts _ =>
      NodeOf .onceClause ts := by
  have hend (s : ParserState) : Makes Reported s
      (commandEnd .command >>= fun _ => clauseBody statement terminators)
      fun _ ts _ => ∃ mark us, mark.kind = .commandEnd ∧ ts = .leaf mark :: us := by
    refine .bind (E := Reported) (makes_commandEnd rfl) fun _ ts u hts => ?_
    obtain ⟨mark, hmark, rfl⟩ := hts
    exact (Builds.any u).mono fun _ us _ _ => ⟨mark, us, hmark, rfl⟩
  have hbody : Makes Reported s.start
      (onceCommand levels >>= fun _ => clauseBody statement terminators)
      fun _ cs _ => (∃ c ∈ cs, IsExpr c) ∨ hasToken .ifKw (cs.take 3) = false := by
    unfold onceCommand
    simp only [bind_assoc]
    refine .bind (E := Reported) (makes_commandStart hk (by simp)) fun _ ts u hts => ?_
    obtain ⟨mark, keyword, hmark, hkeyword, rfl⟩ := hts
    refine .eat .command (by simp) (fun _ token _ => ?_) fun _ => ?_
    · rw [if_pos rfl, bind_assoc]
      have hexpr : Finds Reported IsExpr (expr levels >>= fun _ => commandEnd .command >>= fun _ =>
          clauseBody statement terminators) := .before (finds_expr levels)
      refine (hexpr _).mono fun _ us _ ⟨t, ht, hexpr⟩ => .inl ⟨t, ?_, hexpr⟩
      exact List.mem_append_right _ (List.mem_cons_of_mem _ ht)
    · rw [if_neg (by simp)]
      refine (hend _).mono fun _ us _ hus => .inr ?_
      obtain ⟨close, rest, hclose, rfl⟩ := hus
      simp [hmark, hkeyword, hclose]
  unfold onceClause
  refine .asNode hbody ?_
  rintro - cs - - (⟨_, hc, k, ds, hexpr, rfl⟩ | hif)
  · simp [Tree.hasParts, Tree.among?_isSome hc hexpr]
  · simp [Tree.hasParts, hif]

lemma makes_onceStatement (hk : s.commandAt .statement = some .onceKw) :
    Makes Reported s (onceStatement levels statement terminators) fun _ _ _ => True := by
  unfold onceStatement
  exact .map (builds_chain (fun _ => rfl) rfl (makes_onceClause statement _ levels hk)
    fun _ _ _ => makes_onceStep statement _ levels) fun _ _ _ _ => trivial

/-! ### All statements -/

omit [∀ t, Rule (statement t)] [∀ t, Builds Reported false (statement t)] in
instance (keyword : Kind) : AlwaysReports (strayClause keyword) := by
  unfold strayClause
  dsimp only
  infer_instance

lemma makes_command (hk : s.kindAt .statement = .commandStart) :
    Makes Reported s (command levels statement terminators) fun _ _ _ => True := by
  have hlook := (kindAt_look s .statement).trans hk
  unfold command
  refine .peekCommand ?_
  split
  · exact (Builds.any _).mono fun _ _ _ _ => trivial
  · next honce =>
      exact makes_onceStatement statement _ levels ((commandAt_look s .statement).trans honce)
  · exact (makes_setCommand levels).mono fun _ _ _ _ => trivial
  · exact (makes_callCommand levels).mono fun _ _ _ _ => trivial
  · exact (makes_declareCommand levels).mono fun _ _ _ _ => trivial
  · exact (makes_jumpCommand levels).mono fun _ _ _ _ => trivial
  · exact (makes_jumpCommand levels).mono fun _ _ _ _ => trivial
  · exact (Builds.any _).mono fun _ _ _ _ => trivial
  · exact (Builds.any _).mono fun _ _ _ _ => trivial
  · split
    · exact (Builds.any _).mono fun _ _ _ _ => trivial
    · exact (makes_freeCommand levels hlook).mono fun _ _ _ _ => trivial
  · exact (makes_freeCommand levels hlook).mono fun _ _ _ _ => trivial

lemma builds_statementOf : Builds Reported false (statementOf levels statement terminators) where
  makes s := by
    unfold statementOf
    refine .peekKind ?_
    rw [← kindAt_look s .statement]
    split
    · exact Builds.makes _
    · exact Builds.makes _
    · exact Builds.makes _
    · next hk => exact (makes_command statement terminators levels hk).mono fun _ _ _ _ => by simp
    · exact Builds.makes _
    · exact (makes_line levels .statement).mono fun _ _ _ _ => by simp

end

end

lemma builds_statement (levels : Nat) (terminators : KindSet) :
    Builds Reported false (statement levels terminators) := by
  induction levels generalizing terminators with
  | zero =>
    rw [statement]
    infer_instance
  | succ levels ih =>
    rw [statement]
    exact builds_statementOf _ _ _

instance (levels : Nat) (terminators : KindSet) :
    Builds Reported false (statement levels terminators) :=
  builds_statement levels terminators

end Parser

end DialogueScript
