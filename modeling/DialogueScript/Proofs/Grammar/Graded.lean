import DialogueScript.Proofs.Grammar.Adjoined
import DialogueScript.Proofs.Tree.Opened

/-!
Properties of trees that depend on a number of levels, and what lines and commands add where that
many levels are left: only trees that have the property, if what expressions add there has it.
-/

set_option synthInstance.maxSize 4096

namespace DialogueScript

/-- The nodes of names, lines, headers, and of commands that hold no statements. -/
def Kind.isSimple : Kind → Bool
  | .name | .interpolation | .lineText | .lineCondition | .hashtag | .lineStmt | .setStmt
  | .callStmt | .declareStmt | .typeClause | .jumpStmt | .returnStmt | .commandStmt | .enumCase
  | .titleHeader | .whenCondition | .whenHeader | .header | .fileHashtag => true
  | _ => false

lemma Kind.ne_of_isSimple {j k : Kind} (hk : k.isSimple = true) (hj : j.isSimple = false) :
    k ≠ j := by
  rintro rfl
  simp [hk] at hj

namespace Parser

open ParserState

/-- A property of trees that holds of every token but a blank line, and goes from the children of a
simple node to the node if that is no construct with a keyword; the parts of a text meet there. It
goes to an error if the keyword of an enum is not among them. -/
class Simple (P : Tree → Prop) : Prop extends Tolerant P where
  node : ∀ k cs, k.isSimple = true → k.isPlain = true → Tree.TextRow k cs → (∀ c ∈ cs, P c) →
    P (.node k cs)

/-- A property of trees for each number of levels. It holds of every token but a blank line and of
what expressions consist of, and it goes from the children of a simple node, in which the parts of a
text meet, to the node, and to an error if the keyword of an enum is not among them. -/
class Graded (P : Nat → Tree → Prop) : Prop where
  leaf : ∀ n token, token.kind ≠ .blankLine → P n (.leaf token)
  node : ∀ n k cs, k.isSimple = true → Tree.TextRow k cs → (∀ c ∈ cs, P n c) → P n (.node k cs)
  error : ∀ n cs, (∀ c ∈ cs, P n c ∧ c.kind ≠ .enumKw) → P n (.node .error cs)
  expr : ∀ n t, ExprTree n 0 t → P n t

section
variable {α : Type} {ends : Bool} {P : Tree → Prop} [hP : Simple P]

lemma Adds.simple {k : Kind} {p : Parser α} (hk : k.isSimple = true) (hplain : k.isPlain = true)
    (htext : k.holdsText = false) (hr : Readable p) (hp : Adds ends P p) : Adds ends P (node k p) :=
  .inNode hr hp fun cs => hP.node k cs hk hplain (Tree.textRow_of_not htext cs)

/-! ### Parts of lines -/

section
variable (levels : Nat) [Adds ends P (expr levels)]

instance (mode : Mode) [Blankless mode] : Adds ends P (interpolation levels mode) := by
  unfold interpolation interpolationEnd
  exact .simple rfl rfl rfl inferInstance inferInstance

instance (first : Mode) [hfirst : Wordless first] [hb : Blankless first] (found : Bool) :
    Adds ends P (textStep levels first found) := by
  have : Wordless (if found = true then Mode.text else first) := by
    split
    · infer_instance
    · exact hfirst
  have : Blankless (if found = true then Mode.text else first) := by
    split
    · infer_instance
    · exact hb
  unfold textStep
  refine .seq inferInstance inferInstance fun k => ?_
  split <;> infer_instance

instance (first : Mode) [Wordless first] [Blankless first] :
    Adds ends P (lineText levels first) := by
  unfold lineText
  exact .inNodeIf inferInstance inferInstance fun s hg hfound =>
    hP.node _ _ rfl rfl (textRow_lineText hg levels first hfound)

omit [Adds ends P (expr levels)] in
instance : Adds ends P hashtag := by
  unfold hashtag
  exact .simple rfl rfl rfl inferInstance inferInstance

omit [Adds ends P (expr levels)] in
instance : Adds ends P hashtags := by
  unfold hashtags
  infer_instance

/-! ### Commands without a keyword -/

instance (found : Bool) : Adds ends P (freeStep levels found) := by
  refine .seq inferInstance inferInstance fun k => ?_
  split <;> infer_instance

omit [Adds ends P (expr levels)] in
instance : Adds ends P freeRest := by
  unfold freeRest
  infer_instance

instance : Adds ends P (freeCommand levels) where
  grown s hg := by
    have hadds :
        Adds ends P (advance .statement >>= fun _ => freeText levels >>= fun _ => freeRest) := by
      unfold freeText
      infer_instance
    rw [freeCommand]
    exact (topped_node_of hg (hadds.grown (good_start hg))
      (hP.node _ _ rfl rfl (textRow_freeCommand hg levels))).grown

end

/-! ### Headers -/

section
variable [Adds ends P (expr maxDepth)]

omit [Adds ends P (expr maxDepth)] in
instance : Adds ends P titleHeader := by
  unfold titleHeader titleRest
  exact .simple rfl rfl rfl inferInstance inferInstance

instance : Adds ends P whenCondition := by
  unfold whenCondition
  refine .simple rfl rfl rfl inferInstance (.seq inferInstance inferInstance fun k => ?_)
  unfold conditionAt
  split <;> infer_instance

instance : Adds ends P whenHeader := by
  unfold whenHeader
  exact .simple rfl rfl rfl inferInstance inferInstance

omit [Adds ends P (expr maxDepth)] in
instance : Adds ends P genericHeader := by
  unfold genericHeader headerRest
  exact .simple rfl rfl rfl inferInstance inferInstance

instance (titles : Nat) : Adds ends P (headerStep titles) := by
  have : Adds ends P (errorOf .header .duplicateTitle "a node can only have one `title` header") :=
    .errorOf .header (.inr (by simp)) _
  have (k : Kind) : Adds ends P (headerAt titles k) := by
    unfold headerAt
    split <;> infer_instance
  unfold headerStep
  infer_instance

instance : Adds ends P nodeHeaders := by
  have : Readable headers := ⟨reading_headers⟩
  have : Adds ends P headers := by
    unfold headers
    infer_instance
  have (range : Range) (titles : Nat) : Adds ends P (reportAt range (titleProblem titles)) :=
    .reportAt range (.inr fun e m h => by
      unfold titleProblem at h
      split at h <;> simp at h
      simp [← h.1])
  unfold nodeHeaders
  infer_instance

omit [Adds ends P (expr maxDepth)] in
instance : Adds ends P fileHashtag := by
  unfold fileHashtag
  exact .simple rfl rfl rfl inferInstance inferInstance

end

end

section
variable {α : Type} {ends : Bool} {P : Nat → Tree → Prop} [hP : Graded P] {n : Nat}

instance (n : Nat) : Simple (P n) where
  leaf := hP.leaf n
  name cs := hP.node n .name cs rfl (Tree.textRow_of_not rfl cs)
  error := hP.error n
  node k cs hk _ := hP.node n k cs hk

lemma Adds.graded {k : Kind} {p : Parser α} (hk : k.isSimple = true) (htext : k.holdsText = false)
    (hr : Readable p) (hp : Adds ends (P n) p) : Adds ends (P n) (node k p) :=
  .inNode hr hp fun cs => hP.node n k cs hk (Tree.textRow_of_not htext cs)

instance (levels : Nat) : Adds ends (P levels) (expr levels) :=
  Adds.mono (P := ExprTree levels 0) inferInstance (hP.expr levels)

instance : Adds ends (P n) variableExpr := Adds.mono (P := ExprTree n 0) inferInstance (hP.expr n)

/-! ### Lines -/

section
variable (levels : Nat)

instance : Adds ends (P levels) (lineCondition levels) := by
  unfold lineCondition conditionRest
  exact .graded rfl rfl inferInstance inferInstance

instance : Adds ends (P levels) (lineRest levels) := by
  unfold lineRest
  refine .seq inferInstance inferInstance fun _ => ?_
  dsimp only
  split
  · refine .seq inferInstance inferInstance fun command => ?_
    split <;> infer_instance
  · infer_instance

instance (first : Mode) [Wordless first] [Blankless first] :
    Adds ends (P levels) (line levels first) := by
  rw [line]
  dsimp only
  exact .graded rfl rfl inferInstance inferInstance

/-! ### Commands -/

instance : Adds ends (P n) commandVariable := by
  unfold commandVariable
  infer_instance

instance : Adds ends (P levels) (setCommand levels) := by
  unfold setCommand setValue
  dsimp only
  exact .graded rfl rfl inferInstance inferInstance

instance : Adds ends (P levels) (callCommand levels) := by
  have (range : Range) (kind : Option Kind) :
      Adds ends (P levels) (reportAt range (callProblem kind)) :=
    .reportAt range (.inr fun e m h => by
      unfold callProblem at h
      split at h <;> simp at h
      simp [← h.1])
  have : Adds ends (P levels) (callTarget levels) := by
    unfold callTarget
    infer_instance
  rw [callCommand]
  exact .graded rfl rfl inferInstance inferInstance

instance : Adds ends (P levels) (declareCommand levels) := by
  have : Adds ends (P levels)
      (node .typeClause (advance .command >>= fun _ => name nameRecovery)) :=
    .graded rfl rfl inferInstance inferInstance
  unfold declareCommand declareValue typeClause
  dsimp only
  exact .graded rfl rfl inferInstance inferInstance

instance : Adds ends (P levels) (jumpCommand levels) := by
  unfold jumpCommand jumpTarget
  exact .graded rfl rfl inferInstance inferInstance

instance : Adds ends (P n) returnCommand := by
  unfold returnCommand
  exact .graded rfl rfl inferInstance inferInstance

/-! ### Cases of enums -/

instance : Adds ends (P levels) (enumCase levels) := by
  unfold enumCase
  dsimp only
  exact .graded rfl rfl inferInstance inferInstance

instance (cases : Nat) : Adds ends (P levels) (caseLine levels cases) := by
  unfold caseLine caseOr
  infer_instance

end

end

/-! ### Blocks of cases -/

section
variable {ends : Bool} {P Q : Tree → Prop} (levels : Nat) [Adds ends P (advance .statement)]
  [∀ cases, Adds ends P (caseLine levels cases)] (hQP : ∀ t, Q t → P t)
  (hblock : ∀ cs, (∀ c ∈ cs, P c) → Q (.node .block cs))
include hQP hblock

/-- However deep the blocks of cases are nested, they take no level. -/
lemma adds_caseBlock (nesting : Nat) : Adds ends Q (caseBlock levels nesting) := by
  induction nesting with
  | zero =>
    rw [caseBlock]
    infer_instance
  | succ nesting ih =>
    have hreads := reading_caseBlock levels nesting
    have hstep (cases : Nat) : Adds ends P (caseStep levels (caseBlock levels nesting) cases) := by
      refine .seq inferInstance inferInstance fun k => ?_
      rcases caseStepAt_cases levels cases k with ⟨-, hk⟩ | ⟨-, hk⟩ | ⟨-, hk⟩ <;> rw [hk]
      · infer_instance
      · exact .seq ⟨hreads⟩ (ih.mono hQP) fun _ => inferInstance
      · infer_instance
    have (cases : Nat) : Readable (caseStep levels (caseBlock levels nesting) cases) :=
      ⟨reading_caseStep levels hreads cases⟩
    rw [caseBlock]
    refine .inNode ⟨reading_caseRun levels hreads⟩ ?_ hblock
    unfold caseRun
    infer_instance

variable [∀ cases, Adds ends Q (enumStepAt levels cases .commandStart)]

lemma adds_enumStep (cases : Nat) : Adds ends Q (enumStep levels cases) := by
  have hreads : Readable (casesHere levels) := ⟨reading_casesHere levels⟩
  have : Adds ends Q (casesHere levels) :=
    ⟨fun s hg => (adds_caseBlock levels hQP hblock s.scanner.rest.length).grown hg⟩
  have (k : Kind) : Adds ends Q (enumStepAt levels cases k) := by
    by_cases hk : k = .commandStart
    · rw [hk]
      infer_instance
    · unfold enumStepAt caseOr
      split
      · infer_instance
      · exact absurd rfl hk
      · infer_instance
  unfold enumStep
  infer_instance

end

instance {ends : Bool} {P : Tree → Prop} (levels cases : Nat) [Adds ends P (enumCase levels)] :
    Adds ends P (enumStepAt levels cases .commandStart) := by
  unfold enumStepAt caseOr
  infer_instance

lemma adds_enumTail {P : Tree → Prop} (levels : Nat) [Adds true P (advance .statement)]
    [∀ cases, Adds true P (caseLine levels cases)]
    [∀ cases, Adds true P (enumStepAt levels cases .commandStart)]
    [Adds true P (closeWith .endenumKw .enumStmt "expected `<<endenum>>`")]
    (hblock : ∀ cs, (∀ c ∈ cs, P c) → P (.node .block cs)) : Adds true P (enumTail levels) := by
  have (cases : Nat) : Adds true P (enumStep levels cases) :=
    adds_enumStep levels (fun _ h => h) hblock cases
  unfold enumTail enumCases
  infer_instance

/-! ### Enums -/

section
variable (levels : Nat) {s : ParserState} (hg : s.Good)
include hg

/-- The keyword that is found behind a `<<` is the token that is taken there. -/
lemma kindAt_command {mode : Mode} {k : Kind} (hk : s.commandAt mode = some k) :
    (s.take mode).kindAt .command = k := by
  rw [kindAt, take, Scanner.ahead_setDiagnostics]
  exact hg.scanner.keyword_ahead hk

/-- A command starts with `<<` and its keyword. -/
lemma inner_commandStart {k : Kind} (hk : s.commandAt .statement = some k) (hne : k ≠ .eof) :
    ∃ keyword mark : Token, keyword.kind = k ∧ mark.kind = .commandStart ∧
      (commandStart.after s).forest.inner = .leaf keyword :: .leaf mark :: s.forest.inner := by
  have hmark := kindAt_of_commandAt hk
  have hkind := kindAt_command hg hk
  rw [commandStart, after_bind, hg.after_advance, if_neg (by simp [hmark]),
    (hg.take .statement).after_advance, if_neg (by rwa [hkind])]
  exact ⟨_, _, hkind, hmark, rfl⟩

/-- What a rule adds behind `<<` and its keyword. -/
lemma trees_commandStart {α : Type} {Q : Tree → Prop} (rest : Parser α) [hrest : Adds true Q rest]
    {k : Kind} (hk : s.commandAt .statement = some k) (hne : k ≠ .eof) :
    ∃ (mark keyword : Token) (cs : List Tree), mark.kind = .commandStart ∧ keyword.kind = k ∧
      ((commandStart >>= fun _ => rest).after s.start).forest.trees =
        .leaf mark :: .leaf keyword :: cs ∧ ∀ c ∈ cs, Q c := by
  have hstart := good_start hg
  obtain ⟨keyword, mark, h1, h2, h3⟩ := inner_commandStart hstart (k := k) hk hne
  obtain ⟨ys, h4, h5⟩ := (hrest.grown (Rule.good commandStart hstart)).inner
  refine ⟨mark, keyword, ys.reverse, h2, h1, ?_, fun c hc => h5 c (List.mem_reverse.1 hc)⟩
  rw [after_bind, Forest.trees, h4, h3]
  simp [ParserState.start, Forest.start]

/-- What an enum holds: `<<` and its keyword, and what its other parts add. -/
lemma enum_children {P : Tree → Prop}
    (hleaf : ∀ token : Token, token.kind ≠ .blankLine → P (.leaf token))
    [Adds true P (name nameRecovery)] [Adds true P commandClose]
    (htail : Adds true P (enumTail levels)) (hk : s.commandAt .statement = some .enumKw) :
    ∃ (mark keyword : Token) (cs : List Tree), mark.kind = .commandStart ∧ keyword.kind = .enumKw ∧
      ((enumHead >>= fun _ => enumTail levels).after s.start).forest.trees =
        .leaf mark :: .leaf keyword :: cs ∧ ∀ c ∈ .leaf mark :: .leaf keyword :: cs, P c := by
  obtain ⟨mark, keyword, cs, h1, h2, h3, h4⟩ := trees_commandStart hg (Q := P)
    (name nameRecovery >>= fun _ => commandClose >>= fun _ => enumTail levels) hk (by simp)
  refine ⟨mark, keyword, cs, h1, h2, ?_, ?_⟩
  · rw [← h3]
    unfold enumHead enumName
    simp only [bind_assoc]
  · exact List.forall_mem_cons.2 ⟨hleaf mark (by simp [h1]),
      List.forall_mem_cons.2 ⟨hleaf keyword (by simp [h2]), h4⟩⟩

end

/-! ### Runs of statements -/

section
variable {α β : Type} {ends : Bool} {P : Tree → Prop}

lemma adds_ifStuck {p : Parser α} {stuck on : Parser β} (hr : Readable p) (hp : Adds ends P p)
    (hstuck : Adds ends P stuck) (hon : Adds ends P on) : Adds ends P (ifStuck p stuck on) where
  grown s hg := by
    have hmid := (Readable.follows p hg).good
    rw [Parser.after, run_ifStuck]
    split
    · exact (hp.grown hg).trans (hstuck.grown hmid)
    · exact (hp.grown hg).trans (hon.grown hmid)

instance (terminators : KindSet) : Adds ends P (endsStatements terminators) := by
  unfold endsStatements
  refine .seq inferInstance inferInstance fun k => ?_
  split <;> infer_instance

instance (afterElse : Bool) (message : String) : Adds true P (ambiguous afterElse message) := by
  unfold ambiguous
  infer_instance

/-- What each statement adds, and what is added where one takes nothing, a run of statements
adds. -/
lemma adds_statementList (statement : KindSet → Parser Unit) [∀ t, Rule (statement t)]
    [∀ t, Adds ends P (statement t)] [Adds ends P nothingTaken] (terminators : KindSet) :
    Adds ends P (statementList statement terminators) := by
  have : Adds ends P (statementStep terminators statement) :=
    adds_ifStuck inferInstance inferInstance inferInstance inferInstance
  have : Adds ends P (listStep terminators statement) := by
    unfold listStep
    infer_instance
  unfold statementList
  infer_instance

end

end Parser

end DialogueScript
