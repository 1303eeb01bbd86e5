import DialogueScript.Proofs.Grammar.Graded

/-!
Commands take the keyword that they were chosen by. A rule for a construct that starts with a
keyword is run where that keyword stands next; what it takes first is the `<<` and the keyword, and
nothing that it takes behind them is a `<<` of its own.
-/

set_option synthInstance.maxSize 4096

namespace DialogueScript

lemma Kind.isPlain_of_expr {k : Kind} (hk : k.isExprKind = true ∨ k = .argList) :
    k.isPlain = true := by
  rcases hk with hk | rfl
  · unfold Kind.isExprKind at hk
    split at hk
    all_goals first | rfl | exact absurd hk (by decide)
  · rfl

namespace Parser

open ParserState DialogueScript.Tree

section
variable {α : Type}

instance : Simple AllOpened where
  leaf token _ := allOpened_leaf token
  name _ := allOpened_of_plain rfl
  error _ h := allOpened_of_plain rfl fun c hc => (h c hc).1
  node _ _ _ hplain _ := allOpened_of_plain hplain

instance : Lenient Unmarked where
  leaf token _ hne := ⟨allOpened_leaf token, hne⟩
  name _ h := unmarked_of_plain rfl fun c hc => (h c hc).allOpened
  error _ h := unmarked_of_plain rfl fun c hc => (h c hc).1.allOpened

instance (mode : Mode) : Adds true AllOpened (advance mode) := .advance mode allOpened_leaf

instance (priority := low) (p : Parser α) [Adds true Unmarked p] : Adds true AllOpened p :=
  Adds.mono (P := Unmarked) inferInstance fun _ h => h.allOpened

instance (levels : Nat) : Adds true Unmarked (expr levels) :=
  Adds.mono (P := ExprTree levels 0) inferInstance fun _ h =>
    h.closed fun _ _ hk hcs => unmarked_of_plain (Kind.isPlain_of_expr hk) fun c hc =>
      (hcs c hc).allOpened

lemma adds_plain {k : Kind} (hk : k.isPlain = true) (p : Parser α) [Readable p]
    [Adds true AllOpened p] :
    Adds true Unmarked (node k p) :=
  .inNode inferInstance inferInstance fun _ => unmarked_of_plain hk

instance (p : Parser α) [Readable p] [Adds true AllOpened p] : Adds true Unmarked (node .error p) :=
  adds_plain rfl p

lemma adds_eat (mode : Mode) {k : Kind} (hk : k ≠ .commandStart) (hne : k ≠ .eof) :
    Adds true Unmarked (eat mode k) :=
  .eat mode (fun token htoken => ⟨allOpened_leaf token, by rwa [Tree.kind, htoken]⟩) hne

end

/-! ### Ends of lines and of commands -/

section
variable (mode : Mode) (message : String)

instance : Adds true AllOpened advanceLine := by
  unfold advanceLine
  infer_instance

instance : Adds true Unmarked (skipLine mode) := by
  unfold skipLine
  infer_instance

instance : Adds true Unmarked (errorLine mode message) := by
  unfold errorLine
  infer_instance

instance : Adds true Unmarked eatNewline := by
  have := adds_eat .text (k := .newline) (by simp) (by simp)
  unfold eatNewline
  infer_instance

instance : Adds true Unmarked (endOfLine mode) := by
  have := adds_eat mode (k := .newline) (by simp) (by simp)
  unfold endOfLine
  infer_instance

instance : Adds true Unmarked commandClose := by
  unfold commandClose
  infer_instance

end

/-! ### Where a keyword stands next -/

section
variable {α : Type}

/-- A rule that depends on the command that stands next. -/
lemma Adds.peekCommand {P : Tree → Prop} {mode : Mode} {f : Option Kind → Parser α}
    (h : ∀ ⦃s⦄, s.Good → Grown true P s ((f (s.commandAt mode)).after s)) :
    Adds true P (peekCommand mode >>= f) where
  grown s hg := by
    rw [after_bind, hg.answer_peekCommand, hg.after_peekCommand, ← commandAt_look]
    exact (h (hg.look mode)).of_look

/-- A rule for constructs of some kind, run where one starts. -/
class Opens (k : Kind) (p : Parser α) : Prop where
  grown : ∀ ⦃s⦄, s.Good → ∀ ⦃keyword⦄, keyword ∈ k.openers →
    s.commandAt .statement = some keyword → Grown true Unmarked s (p.after s)

lemma ne_eof_of_opens {k keyword : Kind} (h : keyword ∈ k.openers) : keyword ≠ .eof := by
  rintro rfl
  revert h
  cases k <;> decide

/-- A construct whose rule takes `<<` and the keyword first. -/
lemma Opens.node {k : Kind} (rest : Parser α) [Readable rest] [Adds true Unmarked rest] :
    Opens k (node k (commandStart >>= fun _ => rest)) where
  grown s hg keyword hk hs := by
    obtain ⟨mark, token, cs, hmark, htoken, htrees, hcs⟩ :=
      trees_commandStart hg (Q := Unmarked) rest hs (ne_eof_of_opens hk)
    refine grown_node hg ?_
    rw [htrees]
    exact unmarked_of_command hmark (htoken ▸ hk) hcs

end

/-! ### Commands -/

section
variable (levels : Nat)

instance (mode : Mode) : Adds true Unmarked (interpolation levels mode) := by
  unfold interpolation interpolationEnd
  exact adds_plain rfl _

instance : Adds true Unmarked commandVariable := by
  have : Adds true Unmarked variableExpr := adds_plain rfl _
  unfold commandVariable
  infer_instance

instance : Opens .setStmt (setCommand levels) := by
  unfold setCommand setValue
  dsimp only
  exact .node _

instance : Opens .callStmt (callCommand levels) := by
  have : Adds true Unmarked (callTarget levels) := by
    unfold callTarget
    infer_instance
  rw [callCommand]
  exact .node _

instance : Opens .declareStmt (declareCommand levels) := by
  have : Adds true Unmarked typeClause := by
    unfold typeClause
    exact adds_plain rfl _
  have : Adds true Unmarked (declareValue levels) := by
    unfold declareValue
    infer_instance
  rw [declareCommand]
  exact .node _

instance : Opens .jumpStmt (jumpCommand levels) := by
  unfold jumpCommand jumpTarget
  exact .node _

instance : Opens .returnStmt returnCommand := .node commandClose

instance : Opens .enumCase (enumCase levels) := by
  unfold enumCase
  dsimp only
  exact .node _

instance : Adds true Unmarked (freeCommand levels) := by
  unfold freeCommand freeText freeRest
  dsimp only
  exact adds_plain rfl _

instance (keyword : Kind) : Adds true Unmarked (strayClause keyword) := by
  unfold strayClause
  dsimp only
  infer_instance

/-! ### Lines -/

lemma grown_conditionRest {s : ParserState} (hg : s.Good)
    (hk : s.kindAt .command = .ifKw ∨ s.kindAt .command = .onceKw) :
    Grown true Unmarked (s.take .command) ((conditionRest levels).after s) := by
  have htaken := hg.take .command
  rw [conditionRest, after_bind, hg.answer_eat, hg.after_eat .command (by simp)]
  dsimp only
  rcases hk with hk | hk
  · rw [hk, decide_eq_false (by simp), if_neg (by simp), if_neg (by simp), after_bind,
      Good.after_expect (hg.look .command) .command (by simp), kindAt_look, hk, if_pos rfl,
        take_look]
    exact Adds.grow true Unmarked (expr levels >>= fun _ => commandEnd .expr) htaken
  · rw [hk, decide_eq_true rfl, if_pos rfl, if_pos rfl]
    exact Adds.grow true Unmarked _ htaken

/-- The condition of a line begins with `<<` and one of its keywords. -/
lemma grown_lineCondition {s : ParserState} (hg : s.Good) {keyword : Kind}
    (hk : keyword ∈ Kind.openers .lineCondition) (hs : s.commandAt .text = some keyword) :
    Grown true Unmarked s ((lineCondition levels).after s) := by
  have hstart := good_start hg
  have hmark : s.start.kindAt .text = .commandStart := kindAt_of_commandAt hs
  have hkind : (s.start.take .text).kindAt .command = keyword := kindAt_command hstart hs
  have htoken :
      ((s.start.take .text).scanner.ahead .command).token.kind ∈ Kind.openers .lineCondition := by
    rw [show ((s.start.take .text).scanner.ahead .command).token.kind = keyword from hkind]
    exact hk
  have hor : keyword = .ifKw ∨ keyword = .onceKw := by simpa [Kind.openers] using hk
  obtain ⟨ys, hys, hunmarked⟩ :=
    (grown_conditionRest levels (hstart.take .text) (hkind ▸ hor)).inner
  have : Readable (conditionRest levels) := by
    unfold conditionRest
    infer_instance
  rw [lineCondition]
  refine grown_node hg ?_
  have htrees : ((advance .text >>= fun _ => conditionRest levels).after s.start).forest.trees =
      .leaf (s.start.scanner.ahead .text).token ::
        .leaf ((s.start.take .text).scanner.ahead .command).token :: ys.reverse := by
    rw [after_bind, hstart.after_advance, hmark, if_neg (by simp), Forest.trees, hys]
    simp [ParserState.take, ParserState.start, Forest.start, Forest.add]
  rw [htrees]
  exact unmarked_of_command hmark htoken fun c hc => hunmarked c (List.mem_reverse.1 hc)

instance : Adds true AllOpened (lineRest levels) := by
  have hcondition ⦃s : ParserState⦄ (hg : s.Good) {keyword : Kind}
      (hk : keyword ∈ Kind.openers .lineCondition) (hs : s.commandAt .text = some keyword) :
      Grown true AllOpened s
        ((lineCondition levels >>= fun _ => hashtags >>= fun _ => endOfLine .text).after s) := by
    rw [after_bind]
    exact ((grown_lineCondition levels hg hk hs).mono fun _ h => h.allOpened).trans
      (Adds.grow true AllOpened _ (Rule.good (lineCondition levels) hg))
  unfold lineRest
  refine .seq inferInstance inferInstance fun _ => ?_
  dsimp only
  split
  · refine .peekCommand fun s hg => ?_
    split
    · next hs => exact hcondition hg (by decide) hs
    · next hs => exact hcondition hg (by decide) hs
    · exact Adds.grow true AllOpened _ hg
  · infer_instance

instance (first : Mode) [Wordless first] [Blankless first] :
    Adds true Unmarked (line levels first) := by
  rw [line]
  dsimp only
  exact adds_plain rfl _

end

end Parser

end DialogueScript
