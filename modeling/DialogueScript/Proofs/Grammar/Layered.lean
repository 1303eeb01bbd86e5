import DialogueScript.Proofs.Grammar.Graded
import DialogueScript.Proofs.Grammar.Shape

/-!
What statements, bodies and the children of the root add, for a property of trees that goes through
all constructs that hold statements. Where a construct takes a level, the property is asked for with
one level less inside. Enums are left open: what stands in them is no statement.
-/

set_option synthInstance.maxSize 4096

namespace DialogueScript

/-- The nodes in which the grammar descends by a level. -/
def Kind.nests : Kind → Bool
  | .block | .ifStmt | .onceStmt | .parenExpr | .unaryExpr | .callExpr => true
  | _ => false

/-- The nodes that hold statements, or would hold them if their end were there. -/
def Kind.holdsStatements : Kind → Bool
  | .block | .ifStmt | .onceStmt | .ifClause | .elseIfClause | .elseClause | .onceClause
  | .onceElseClause | .shortcutOptionGroup | .shortcutOption | .lineGroup | .lineGroupItem | .body
  | .dialogueNode | .error => true
  | _ => false

namespace Parser

open ParserState

/-- A property of trees for each number of levels that goes from the parts of every construct to the
construct, for one that takes a level with one level more. -/
class Layered (P : Nat → Tree → Prop) : Prop extends Graded P where
  token : ∀ n token, P n (.leaf token)
  mono : ∀ n t, P n t → P (n + 1) t
  flat : ∀ n k cs, k.holdsStatements = true → k.nests = false → (∀ c ∈ cs, P n c) → P n (.node k cs)
  deeper : ∀ n k cs, k.holdsStatements = true → (∀ c ∈ cs, P n c) → P (n + 1) (.node k cs)
  enum : ∀ n ⦃s⦄, s.Good → s.commandAt .statement = some .enumKw →
    Grown true (P n) s ((enumCommand n).after s)

/-! ### The kinds of nodes that can lack their end -/

lemma answer_closeWith {s : ParserState} (hg : s.Good) (keyword kind : Kind) (message : String) :
    (closeWith keyword kind message).answer s =
      if s.commandAt .statement = some keyword then kind else .error := by
  rw [closeWith, answer_bind, hg.answer_peekCommand]
  split
  · rw [answer_bind, answer_bind, answer_pure]
  · rw [answer_bind, answer_pure]

lemma answer_enumTail {n : Nat} {s : ParserState} (hg : s.Good) :
    (enumTail n).answer s = .enumStmt ∨ (enumTail n).answer s = .error := by
  rw [enumTail, answer_bind, answer_closeWith (Rule.good (enumCases n) hg)]
  split
  · exact .inl rfl
  · exact .inr rfl

/-- An enum is one node, closed or not, of `<<`, its keyword and what its other parts add. -/
lemma grown_enum {P Q : Tree → Prop} {n : Nat}
    (hleaf : ∀ token : Token, token.kind ≠ .blankLine → Q (.leaf token))
    [Adds true Q (name nameRecovery)] [Adds true Q commandClose] (htail : Adds true Q (enumTail n))
    (hnode : ∀ k cs, k = .enumStmt ∨ k = .error →
      (∃ keyword : Token, keyword.kind = .enumKw ∧ .leaf keyword ∈ cs) → (∀ c ∈ cs, Q c) →
      P (.node k cs)) {s : ParserState} (hg : s.Good) (hk : s.commandAt .statement = some .enumKw) :
    Grown true P s ((enumCommand n).after s) := by
  obtain ⟨mark, keyword, cs, -, h1, h2, h3⟩ := enum_children n hg hleaf htail hk
  have hkind := answer_enumTail (n := n) (Rule.good enumHead (good_start hg))
  have hinner := Reading.inner_complete (p := enumHead >>= fun _ => enumTail n) Rule.reads hg
    ((enumHead >>= fun _ => enumTail n).answer s.start)
  rw [h2, answer_bind] at hinner
  rw [enumCommand, after_bind, after_pure, after_nodeOf, answer_bind]
  refine ⟨⟨[_], hinner, ?_⟩, by simp⟩
  rw [List.forall_mem_singleton]
  exact hnode _ _ hkind ⟨keyword, h1, by simp⟩ h3

section
variable {α : Type} {P : Nat → Tree → Prop} [hP : Layered P] {n : Nat}

instance (mode : Mode) : Adds true (P n) (advance mode) := .advance mode (hP.token n)

lemma Adds.raise {p : Parser α} (h : Adds true (P n) p) : Adds true (P (n + 1)) p :=
  h.mono (hP.mono n)

lemma Adds.flat {k : Kind} {p : Parser α} (hk : k.holdsStatements = true) (hn : k.nests = false)
    (hr : Readable p) (hp : Adds true (P n) p) : Adds true (P n) (node k p) :=
  .inNode hr hp fun cs => hP.flat n k cs hk hn

/-- A chain, whose end is there or not. -/
lemma adds_chain {σ : Type} {p : Parser α} {step : σ → Parser (ForInStep σ)} {b : σ}
    {keyword kind : Kind} {m : String} (hk : kind.holdsStatements = true) (hr : Readable p)
    (hp : Adds true (P n) p) [∀ b, Readable (step b)] [∀ b, Adds true (P n) (step b)] :
    Adds true (P (n + 1))
      (nodeOf (p >>= fun _ => loop step b >>= fun _ => closeWith keyword kind m)) := by
  refine ⟨fun s hg => ?_⟩
  have hmid := (Readable.follows p (good_start hg)).good
  have hloop := (Readable.follows (loop step b) hmid).good
  refine (topped_nodeOf (Q := P n) inferInstance inferInstance
    (fun cs => hP.deeper n _ cs ?_) hg).grown
  rw [answer_bind, answer_bind, answer_closeWith hloop]
  split
  · exact hk
  · rfl

end

/-! ### Blocks, groups and chains -/

section
variable {P : Nat → Tree → Prop} [hP : Layered P] {n : Nat} (statement : KindSet → Parser Unit)
  [∀ t, Rule (statement t)] [∀ t, Adds true (P n) (statement t)] (terminators : KindSet)

instance : Adds true (P n) (statementList statement terminators) := by
  have : Adds true (P n) nothingTaken := by
    unfold nothingTaken
    infer_instance
  exact adds_statementList statement terminators

instance : Adds true (P (n + 1)) (block statement) := by
  unfold block
  exact .inNode (Q := P n) inferInstance inferInstance fun cs => hP.deeper n _ cs rfl

lemma adds_groupItem (mode : Mode) {kind : Kind} (hk : kind.holdsStatements = true)
    (hn : kind.nests = false) : Adds true (P (n + 1)) (groupItem n statement mode kind) := by
  have : Adds true (P (n + 1)) (line n .text) := .raise inferInstance
  unfold groupItem itemHead itemBlock
  dsimp only
  exact .flat hk hn inferInstance inferInstance

instance (lineGroup : Bool) : Adds true (P (n + 1)) (group n statement lineGroup) := by
  have hitem (mode : Mode) : Adds true (P (n + 1)) (groupItem n statement mode
      (if lineGroup then .lineGroupItem else .shortcutOption)) :=
    adds_groupItem statement mode (by cases lineGroup <;> rfl) (by cases lineGroup <;> rfl)
  have (mode : Mode) : Adds true (P (n + 1)) (groupTail lineGroup mode) := by
    unfold groupTail eat
    infer_instance
  have (mode : Mode) : Adds true (P (n + 1)) (groupStep statement n lineGroup mode) :=
    .seq inferInstance (hitem mode) fun _ => .withState fun _ => inferInstance
  unfold group
  exact .flat (by cases lineGroup <;> rfl) (by cases lineGroup <;> rfl) inferInstance inferInstance

lemma adds_clause {kind : Kind} (hk : kind.holdsStatements = true) (hn : kind.nests = false)
    (conditional : Bool) : Adds true (P n) (clause n statement kind conditional terminators) := by
  unfold clause clauseBody clauseCommand
  exact .flat hk hn inferInstance inferInstance

instance : Adds true (P n) (onceClause n statement terminators) := by
  unfold onceClause clauseBody onceCommand
  exact .flat rfl rfl inferInstance inferInstance

instance : Adds true (P (n + 1)) (ifStatement n statement terminators) := by
  have hclause (kind : Kind) (hk : kind.holdsStatements = true) (hn : kind.nests = false)
      (conditional : Bool) :=
    adds_clause (P := P) (n := n) statement (terminators.union ifTerminators) hk hn conditional
  have := hclause .ifClause rfl rfl true
  have := hclause .elseIfClause rfl rfl true
  have := hclause .elseClause rfl rfl false
  have (afterElse : Bool) : Adds true (P n)
      (ifStep statement n (terminators.union ifTerminators) afterElse) := by
    unfold ifStep
    refine .seq inferInstance inferInstance fun keyword => ?_
    split <;> infer_instance
  have : Adds true (P (n + 1)) (nodeOf (clause n statement .ifClause true
      (terminators.union ifTerminators) >>= fun _ =>
      loop (ifStep statement n (terminators.union ifTerminators)) false >>= fun _ =>
        closeWith .endifKw .ifStmt "expected `<<endif>>`")) :=
    adds_chain rfl inferInstance inferInstance
  unfold ifStatement
  infer_instance

instance : Adds true (P (n + 1)) (onceStatement n statement terminators) := by
  have := adds_clause (P := P) (n := n) statement (terminators.union onceTerminators)
    (show Kind.holdsStatements .onceElseClause = true from rfl) rfl false
  have (afterElse : Bool) : Adds true (P n)
      (onceStep statement n (terminators.union onceTerminators) afterElse) := by
    unfold onceStep
    infer_instance
  have : Adds true (P (n + 1)) (nodeOf (onceClause n statement
      (terminators.union onceTerminators) >>= fun _ =>
      loop (onceStep statement n (terminators.union onceTerminators)) false >>= fun _ =>
        closeWith .endonceKw .onceStmt "expected `<<endonce>>`")) :=
    adds_chain rfl inferInstance inferInstance
  unfold onceStatement
  infer_instance

/-! ### All statements -/

omit [∀ t, Rule (statement t)] [∀ t, Adds true (P n) (statement t)] in
lemma grown_chosen {Q : Tree → Prop} {s : ParserState} (hg : s.Good) (p : Parser Unit)
    [hp : Adds true Q p] :
    Grown true Q s (p.after (s.look .statement)) :=
  (hp.grown (hg.look .statement)).of_look

omit [∀ t, Rule (statement t)] [∀ t, Adds true (P n) (statement t)] in
/-- The commands that hold no statements. -/
lemma grown_otherCommand {s : ParserState} (hg : s.Good) (p : Parser Unit)
    [hp : Adds true (P n) p] :
    Grown true (P (n + 1)) s (p.after (s.look .statement)) :=
  (hp.grown (hg.look .statement)).of_look.mono (hP.mono n)

instance : Adds true (P (n + 1)) (command n statement terminators) where
  grown s hg := by
    rw [command, after_bind, hg.answer_peekCommand, hg.after_peekCommand]
    split
    · exact grown_chosen hg (ifStatement n statement terminators)
    · exact grown_chosen hg (onceStatement n statement terminators)
    · exact grown_otherCommand hg (setCommand n)
    · exact grown_otherCommand hg (callCommand n)
    · exact grown_otherCommand hg (declareCommand n)
    · exact grown_otherCommand hg (jumpCommand n)
    · exact grown_otherCommand hg (jumpCommand n)
    · exact grown_otherCommand hg returnCommand
    · next hk =>
      have hk' : (s.look .statement).commandAt .statement = some .enumKw :=
        (commandAt_look s _).trans hk
      exact (hP.enum n (hg.look .statement) hk').of_look.mono (hP.mono n)
    · split
      · exact grown_otherCommand hg (strayClause _)
      · exact grown_otherCommand hg (freeCommand n)
    · exact grown_otherCommand hg (freeCommand n)

lemma adds_statementOf : Adds true (P (n + 1)) (statementOf n statement terminators) := by
  have : Adds true (P (n + 1)) (line n .statement) := .raise inferInstance
  refine .seq inferInstance inferInstance fun k => ?_
  split <;> infer_instance

end

section
variable {P : Nat → Tree → Prop} [hP : Layered P]

/-- **A statement takes a level** of those that are left for everything in it. -/
instance adds_statement (levels : Nat) (terminators : KindSet) :
    Adds true (P levels) (statement levels terminators) := by
  induction levels generalizing terminators with
  | zero =>
    rw [statement]
    infer_instance
  | succ levels ih =>
    rw [statement]
    exact adds_statementOf _ _

/-! ### Scripts -/

instance : Adds true (P maxDepth) body := by
  have : Adds true (P maxDepth) bodyStep := by
    unfold bodyStep
    infer_instance
  have : Adds true (P maxDepth) bodyStatements := by
    unfold bodyStatements
    infer_instance
  unfold body bodyHead bodyClose
  exact .flat rfl rfl inferInstance inferInstance

instance : Adds true (P maxDepth) nodeTail := by
  unfold nodeTail
  infer_instance

/-- **Every child of the root has the property**, with all levels left for what is in it. -/
lemma adds_child (k : Kind) : Adds true (P maxDepth) (child k) := by
  have : Readable (nodeHeaders >>= fun _ => nodeTail) := ⟨reading_nodeParts⟩
  have : Adds true (P maxDepth) (nodeHeaders >>= fun _ => nodeTail) :=
    .seq ⟨reading_nodeHeaders⟩ inferInstance fun _ => inferInstance
  have : Adds true (P maxDepth) dialogueNode := ⟨fun s hg => by
    have hkind : Kind.holdsStatements ((nodeHeaders >>= fun _ => nodeTail).answer s.start) = true ∧
        Kind.nests ((nodeHeaders >>= fun _ => nodeTail).answer s.start) = false := by
      have hu := (reading_nodeHeaders.follows (good_start hg)).good
      rw [answer_bind]
      rcases answer_nodeTail hu with ⟨h, -⟩ | h <;> rw [h] <;> exact ⟨rfl, rfl⟩
    rw [dialogueNode, after_bind, after_pure]
    exact (topped_nodeOf (Q := P maxDepth) inferInstance inferInstance
      (fun cs => hP.flat maxDepth _ cs hkind.1 hkind.2) hg).grown⟩
  unfold child
  infer_instance

end

end Parser

end DialogueScript
