import DialogueScript.Proofs.Grammar.Layered
import DialogueScript.Proofs.Grammar.Opened

/-!
Statements, bodies and the children of the root. Wherever the rule for a command is chosen its
keyword stands next, so every construct that these add begins with its keyword.
-/

set_option synthInstance.maxSize 4096

namespace DialogueScript

namespace Parser

open ParserState DialogueScript.Tree

/-! ### Where a construct starts -/

section
variable {α : Type} {k : Kind}

lemma Opens.grow (p : Parser α) [h : Opens k p] {s : ParserState} (hg : s.Good) {keyword : Kind}
    (hs : s.commandAt .statement = some keyword) (hk : keyword ∈ k.openers) :
    Grown true Unmarked s (p.after s) :=
  h.grown hg hk hs

instance (p : Parser α) {β : Type} (b : β) [h : Opens k p] : Opens k (p >>= fun _ => pure b) :=
  ⟨h.grown⟩

instance (afterElse : Bool) (message : String) (p : Parser α) [h : Opens k p] :
    Opens k (ambiguous afterElse message >>= fun _ => p) where
  grown s hg keyword hk hs := by
    cases afterElse
    · exact h.grown hg hk hs
    · have hnext := (Good.commandAt_errorOf hg .statement .unresolvedAmbiguity message).trans hs
      exact (Adds.grow true Unmarked (ambiguous true message) hg).trans
        (h.grown (Rule.good (ambiguous true message) hg) hk hnext)

end

/-! ### Enums -/

/-- What a rule that closes a construct adds: the command of its end, or nothing. -/
lemma closeWith_keyed {s : ParserState} (hg : s.Good) (keyword kind : Kind) (message : String)
    (hne : keyword ≠ .eof) (hmark : keyword ≠ .commandStart) :
    ∃ ys, ((closeWith keyword kind message).after s).forest.inner = ys ++ s.forest.inner ∧
      Keyed [keyword] ys.reverse ∧ ∀ c ∈ ys, AllOpened c := by
  have hlook := hg.look .statement
  rw [closeWith, after_bind, hg.answer_peekCommand, hg.after_peekCommand]
  split
  · next hk =>
    obtain ⟨token, mark, h1, h2, h3⟩ := inner_commandStart hlook ((commandAt_look s _).trans hk) hne
    obtain ⟨ys, h4, h5⟩ :=
      (Adds.grow true Unmarked commandClose (Rule.good commandStart hlook)).inner
    refine ⟨ys ++ [.leaf token, .leaf mark], ?_, ?_, ?_⟩
    · rw [after_bind, after_bind, after_pure, h4, h3]
      simp [ParserState.look]
    · rw [List.reverse_append]
      exact (keyed_pair (by simp [h1]) (by rwa [h1])).append
        (keyed_of_unmarked fun c hc => h5 c (List.mem_reverse.1 hc))
    · intro c hc
      rcases List.mem_append.1 hc with hc | hc
      · exact (h5 c hc).allOpened
      · rcases List.mem_pair.1 hc with rfl | rfl <;> exact allOpened_leaf _
  · rw [after_bind, after_pure, (Good.errorOf_keeps hlook _ _ _).2]
    exact ⟨[], rfl, keyed_of_ne (by simp), by simp⟩

section
variable (levels : Nat)

/-- A case where its keyword stands, and something else elsewhere. -/
lemma adds_caseOr (cases : Nat) {other : Parser (ForInStep Nat)} [Adds true Unmarked other] :
    Adds true Unmarked (caseOr levels cases other) := by
  refine .peekCommand fun s hg => ?_
  split
  · next hk => exact Opens.grow (k := .enumCase) _ hg hk (by decide)
  · exact Adds.grow true Unmarked other hg

instance : Adds true Unmarked (enumCases levels) := by
  have (cases : Nat) : Adds true Unmarked (caseLine levels cases) := adds_caseOr levels cases
  have (cases : Nat) : Adds true Unmarked (enumStepAt levels cases .commandStart) :=
    adds_caseOr levels cases
  have (cases : Nat) : Adds true Unmarked (enumStep levels cases) :=
    adds_enumStep (P := AllOpened) levels (fun _ h => h.allOpened)
      (fun _ => unmarked_of_plain rfl) cases
  unfold enumCases
  infer_instance

/-- What an enum holds between its keyword and its end. -/
def enumMiddle : Parser Unit := do
  enumName
  enumCases levels

instance : Rule (enumMiddle levels) := by
  unfold enumMiddle enumName
  infer_instance

instance : Adds true Unmarked (enumMiddle levels) := by
  unfold enumMiddle enumName
  infer_instance

lemma enumParts_eq : enumHead >>= (fun _ => enumTail levels) = commandStart >>= fun _ =>
    enumMiddle levels >>= fun _ => closeWith .endenumKw .enumStmt "expected `<<endenum>>`" := by
  unfold enumHead enumTail enumMiddle
  simp only [bind_assoc]

/-- An enum holds its keyword, and no other command but that of its end. -/
lemma enum_keyed {s : ParserState} (hg : s.Good) (hs : s.commandAt .statement = some .enumKw) :
    ∃ (mark keyword : Token) (cs : List Tree), mark.kind = .commandStart ∧ keyword.kind = .enumKw ∧
      ((enumHead >>= fun _ => enumTail levels).after s.start).forest.trees =
        .leaf mark :: .leaf keyword :: cs ∧ Keyed [.endenumKw] cs ∧ ∀ c ∈ cs, AllOpened c := by
  have hstart := good_start hg
  obtain ⟨keyword, mark, h1, h2, h3⟩ := inner_commandStart hstart (k := .enumKw) hs (by simp)
  have hfirst := Rule.good commandStart hstart
  obtain ⟨ys, h4, h5⟩ := (Adds.grow true Unmarked (enumMiddle levels) hfirst).inner
  have hmiddle := Rule.good (enumMiddle levels) hfirst
  obtain ⟨zs, h6, h7, h8⟩ := closeWith_keyed hmiddle .endenumKw .enumStmt "expected `<<endenum>>`"
    (by simp) (by simp)
  refine ⟨mark, keyword, ys.reverse ++ zs.reverse, h2, h1, ?_, ?_, fun c hc => ?_⟩
  · rw [enumParts_eq, after_bind, after_bind, Forest.trees, h6, h4, h3]
    simp [ParserState.start, Forest.start]
  · exact (keyed_of_unmarked fun c hc => h5 c (List.mem_reverse.1 hc)).append h7
  · rcases List.mem_append.1 hc with hc | hc
    · exact (h5 c (List.mem_reverse.1 hc)).allOpened
    · exact h8 c (List.mem_reverse.1 hc)

instance : Opens .enumStmt (enumCommand levels) where
  grown s hg keyword hk hs := by
    rw [show keyword = .enumKw by simpa [Kind.openers] using hk] at hs
    obtain ⟨mark, token, cs, h1, h2, h3, h4, h5⟩ := enum_keyed levels hg hs
    have hanswer := answer_enumTail (n := levels) (Rule.good enumHead (good_start hg))
    rw [enumCommand, after_bind, after_pure]
    refine grown_nodeOf hg ?_
    rw [h3, answer_bind]
    rcases hanswer with h | h <;> rw [h]
    · exact unmarked_of_opened h1 (by simp [h2, Kind.openers]) h4 h5
    · exact unmarked_of_plain rfl (allOpened_command mark token h5)

end

/-! ### Blocks, groups and chains -/

section
variable (levels : Nat) (statement : KindSet → Parser Unit) [∀ t, Rule (statement t)]
  [∀ t, Adds true Unmarked (statement t)] (terminators : KindSet)

instance : Adds true Unmarked (statementList statement terminators) := by
  have : Adds true Unmarked nothingTaken := by
    unfold nothingTaken
    infer_instance
  exact adds_statementList statement terminators

instance : Adds true Unmarked (block statement) := by
  unfold block
  exact adds_plain rfl _

lemma adds_openedItem (mode : Mode) {kind : Kind} (hk : kind.isPlain = true) :
    Adds true Unmarked (groupItem levels statement mode kind) := by
  unfold groupItem itemHead itemBlock
  dsimp only
  exact adds_plain hk _

instance (lineGroup : Bool) : Adds true Unmarked (group levels statement lineGroup) := by
  have hitem (mode : Mode) : Adds true Unmarked (groupItem levels statement mode
      (if lineGroup then .lineGroupItem else .shortcutOption)) :=
    adds_openedItem levels statement mode (by cases lineGroup <;> rfl)
  have (mode : Mode) : Adds true AllOpened (groupTail lineGroup mode) := by
    unfold groupTail
    infer_instance
  have (mode : Mode) : Adds true AllOpened (groupStep statement levels lineGroup mode) :=
    .seq inferInstance inferInstance fun _ => .withState fun _ => inferInstance
  unfold group
  exact adds_plain (by cases lineGroup <;> rfl) _

/-- A chain, closed or not, begins with its first clause. -/
lemma opens_chain {k keyword kind : Kind} {m : String} {step : Bool → Parser (ForInStep Bool)}
    {first : Parser Unit} [Readable first] [Opens k first] [∀ b, Readable (step b)]
    [∀ b, Adds true Unmarked (step b)] (hkind : kind.isPlain = true) :
    Opens k
      (nodeOf (first >>= fun _ => loop step false >>= fun _ => closeWith keyword kind m)) where
  grown s hg next hk hs := by
    have hstart := good_start hg
    have hmid := (Readable.follows first hstart).good
    have hloop := (Readable.follows (loop step false) hmid).good
    have hall : Grown true AllOpened s.start
        ((first >>= fun _ => loop step false >>= fun _ => closeWith keyword kind m).after
          s.start) := by
      rw [after_bind]
      exact ((Opens.grow first hstart hs hk).mono fun _ h => h.allOpened).trans
        (Adds.grow true AllOpened _ hmid)
    refine (topped_nodeOf_of hg hall fun cs => unmarked_of_plain ?_).grown
    rw [answer_bind, answer_bind, answer_closeWith hloop]
    split
    · exact hkind
    · rfl

section
variable {kind : Kind} (conditional : Bool)

instance : Opens kind (clause levels statement kind conditional terminators) := by
  unfold clause clauseCommand clauseBody
  rw [bind_assoc]
  dsimp only
  exact .node _

instance : Opens .onceClause (onceClause levels statement terminators) := by
  unfold onceClause onceCommand clauseBody
  rw [bind_assoc]
  dsimp only
  exact .node _

end

instance : Opens .ifClause (ifStatement levels statement terminators) := by
  have (afterElse : Bool) : Adds true Unmarked
      (ifStep statement levels (terminators.union ifTerminators) afterElse) := by
    unfold ifStep
    refine .peekCommand fun s hg => ?_
    split
    · next hs => exact Opens.grow (k := .elseIfClause) _ hg hs (by decide)
    · next hs => exact Opens.grow (k := .elseClause) _ hg hs (by decide)
    · exact Adds.grow true Unmarked _ hg
  have : Opens .ifClause (nodeOf (clause levels statement .ifClause true
      (terminators.union ifTerminators) >>= fun _ =>
      loop (ifStep statement levels (terminators.union ifTerminators)) false >>= fun _ =>
        closeWith .endifKw .ifStmt "expected `<<endif>>`")) := opens_chain rfl
  unfold ifStatement
  infer_instance

instance : Opens .onceClause (onceStatement levels statement terminators) := by
  have (afterElse : Bool) : Adds true Unmarked
      (onceStep statement levels (terminators.union onceTerminators) afterElse) := by
    unfold onceStep
    refine .peekCommand fun s hg => ?_
    split
    · next hs => exact Opens.grow (k := .onceElseClause) _ hg hs (by decide)
    · exact Adds.grow true Unmarked _ hg
  have : Opens .onceClause (nodeOf (onceClause levels statement
      (terminators.union onceTerminators) >>= fun _ =>
      loop (onceStep statement levels (terminators.union onceTerminators)) false >>= fun _ =>
        closeWith .endonceKw .onceStmt "expected `<<endonce>>`")) := opens_chain rfl
  unfold onceStatement
  infer_instance

/-! ### All statements -/

/-- **A command takes the keyword that it was chosen by.** -/
instance : Adds true Unmarked (command levels statement terminators) := by
  refine .peekCommand fun s hg => ?_
  split
  · next hs => exact Opens.grow (k := .ifClause) _ hg hs (by decide)
  · next hs => exact Opens.grow (k := .onceClause) _ hg hs (by decide)
  · next hs => exact Opens.grow (k := .setStmt) _ hg hs (by decide)
  · next hs => exact Opens.grow (k := .callStmt) _ hg hs (by decide)
  · next hs => exact Opens.grow (k := .declareStmt) _ hg hs (by decide)
  · next hs => exact Opens.grow (k := .jumpStmt) _ hg hs (by decide)
  · next hs => exact Opens.grow (k := .jumpStmt) _ hg hs (by decide)
  · next hs => exact Opens.grow (k := .returnStmt) _ hg hs (by decide)
  · next hs => exact Opens.grow (k := .enumStmt) _ hg hs (by decide)
  · split
    · exact Adds.grow true Unmarked (strayClause _) hg
    · exact Adds.grow true Unmarked (freeCommand levels) hg
  · exact Adds.grow true Unmarked (freeCommand levels) hg

lemma adds_openedStatement : Adds true Unmarked (statementOf levels statement terminators) := by
  refine .seq inferInstance inferInstance fun k => ?_
  split <;> infer_instance

end

instance (levels : Nat) (terminators : KindSet) :
    Adds true Unmarked (statement levels terminators) := by
  induction levels generalizing terminators with
  | zero =>
    rw [statement]
    infer_instance
  | succ levels ih =>
    rw [statement]
    exact adds_openedStatement levels _ terminators

/-! ### Scripts -/

instance : Adds true Unmarked body := by
  have : Adds true Unmarked bodyStep := by
    unfold bodyStep
    infer_instance
  have : Adds true Unmarked bodyStatements := by
    unfold bodyStatements
    infer_instance
  unfold body bodyHead bodyClose
  exact adds_plain rfl _

instance : Adds true AllOpened dialogueNode := by
  have : Adds true AllOpened nodeTail := by
    unfold nodeTail
    infer_instance
  have : Readable (nodeHeaders >>= fun _ => nodeTail) := ⟨reading_nodeParts⟩
  have : Adds true AllOpened (nodeHeaders >>= fun _ => nodeTail) :=
    .seq ⟨reading_nodeHeaders⟩ inferInstance fun _ => inferInstance
  refine ⟨fun s hg => ?_⟩
  rw [dialogueNode, after_bind, after_pure]
  have hmid := (reading_nodeHeaders.follows (good_start hg)).good
  refine (topped_nodeOf (Q := AllOpened) inferInstance inferInstance
    (fun cs => allOpened_of_plain ?_) hg).grown
  rw [answer_bind]
  rcases answer_nodeTail hmid with ⟨h, -⟩ | h <;> rw [h] <;> rfl

/-- **In every child of the root each construct with a keyword begins with it.** -/
instance (k : Kind) : Adds true AllOpened (child k) := by
  unfold child
  infer_instance

end Parser

end DialogueScript
