import DialogueScript.Proofs.Grammar.Layered
import DialogueScript.Proofs.Parse.LexicalErrors
import DialogueScript.Proofs.Tree.Groups

/-!
Rows of statements. Trees that are no groups can come one behind the other as they like; behind a
group that no blank line ends, no item of its kind can come next. Rules that form no groups keep a
row.
-/

set_option synthInstance.maxSize 4096

namespace DialogueScript

open DialogueScript.Tree

/-! ### What every rule keeps -/

/-- No rule forgets a blank line before the blocks in front of it are closed. -/
lemma Reads.unspent {s₀ s : ParserState} (h : Reads s₀ s) (hg : s₀.Good)
    (hs : s₀.scanner.Unspent) : s.scanner.Unspent := by
  refine h.keeps (I := fun u _ => u.Unspent) hg hs (fun _ _ mode _ hu => hu.settle mode) ?_
  intro u _ mode hu hs
  have hafter : (u.after mode).Unspent := (hu.takes mode).unspent (hs.settle mode)
  exact hafter

namespace ParserState

/-- What was taken came into the trees; if nothing did, nothing was taken. -/
def TokensAdded (s₀ s : ParserState) : Prop :=
  ∃ ts, s.forest.tokens = s₀.forest.tokens ++ ts ∧ (ts = [] → s.scanner.budget = s₀.scanner.budget)

lemma TokensAdded.trans {s₀ s s' : ParserState} (h : TokensAdded s₀ s) (h' : TokensAdded s s') :
    TokensAdded s₀ s' := by
  obtain ⟨ts, h1, h2⟩ := h
  obtain ⟨us, h3, h4⟩ := h'
  refine ⟨ts ++ us, by rw [h3, h1, List.append_assoc], fun h => ?_⟩
  rw [List.append_eq_nil_iff] at h
  exact (h4 h.2).trans (h2 h.1)

/-- A step that takes nothing. -/
lemma TokensAdded.of_same {s s' : ParserState} (ht : s'.forest.tokens = s.forest.tokens)
    (hb : s'.scanner.budget = s.scanner.budget) : TokensAdded s s' :=
  ⟨[], by simpa using ht, fun _ => hb⟩

/-- Opening and closing nodes takes nothing. -/
lemma TokensAdded.within {s s' : ParserState} {f g : Forest} {r r' : Record}
    (hf : f.tokens = s.forest.tokens) (hg : g.tokens = s'.forest.tokens)
    (h : TokensAdded { s with forest := f, record := r } s') :
    TokensAdded s { s' with forest := g, record := r' } := by
  obtain ⟨ts, h1, h2⟩ := h
  exact ⟨ts, by rw [← hf, ← h1]; exact hg, h2⟩

end ParserState

open ParserState in
lemma Reads.fed {s₀ s : ParserState} (h : Reads s₀ s) : TokensAdded s₀ s := by
  induction h with
  | refl s => exact .of_same rfl rfl
  | look mode _ ih => exact ih.trans (.of_same rfl (Parser.budget_look _ mode))
  | @take s₀ s mode _ _ ih =>
    refine ih.trans ⟨[(s.scanner.ahead mode).token], ?_, by simp⟩
    simp [ParserState.take, Forest.tokens_add]
  | report mode e m _ _ ih ih' =>
    exact (ih.trans ih').trans (.of_same (by rw [forest_report]) (by rw [scanner_report]))
  | @poll s₀ s _ ih =>
    rcases poll_cases s with ⟨-, h1⟩ | ⟨-, -, h1⟩ | ⟨-, -, h1⟩ <;> rw [h1] <;> exact ih
  | node k _ _ ih ih' =>
      exact ih.trans (.within (Forest.tokens_start _) (Forest.tokens_complete _ k) ih')
  | abandon _ _ ih ih' =>
      exact ih.trans (.within (Forest.tokens_start _) (Forest.tokens_abandon _) ih')
  | around k _ _ ih ih' =>
    exact ih.trans (.within (Forest.tokens_precede _) (Forest.tokens_complete _ k) ih')

namespace Parser

open ParserState

variable {α β σ : Type} {config : Config}

/-! ### Rules that form no groups -/

/-- Trees that can stand anywhere in a row, whatever the number of levels. -/
def SingleAt (config : Config) (_ : Nat) (t : Tree) : Prop := Single config t

instance : Tolerant (Single config) where
  leaf token hk := ⟨wellGrouped_leaf token, by simp [isTokenOf, hk], rfl⟩
  name _ h := (row_of_singles h).node (by simp) (by simp)
  error _ h := (row_of_singles fun c hc => (h c hc).1).node (by simp) (by simp)

instance : Graded (SingleAt config) where
  leaf _ := Tolerant.leaf (P := Single config)
  node _ _ _ hk _ h :=
    (row_of_singles h).node (Kind.ne_of_isSimple hk rfl) (Kind.ne_of_isSimple hk rfl)
  error _ := Tolerant.error (P := Single config)
  expr _ _ := ExprTree.closed (P := Single config) fun k cs hk h => by
    refine (row_of_singles h).node ?_ ?_ <;> rintro rfl <;> simp [Kind.isExprKind] at hk

/-- A state of an uncancelled run with these settings. -/
structure RunsWith (config : Config) (s : ParserState) : Prop where
  good : s.Good
  quiet : s.Quiet
  config : s.scanner.config = config
  unspent : s.scanner.Unspent

lemma RunsWith.reads {s u : ParserState} (h : RunsWith config s) (hr : Reads s u) :
    RunsWith config u where
  good := (hr.follows h.good).good
  quiet := (hr.follows h.good).quiet h.quiet
  config := (hr.follows h.good).config.trans h.config
  unspent := hr.unspent h.good h.unspent

lemma RunsWith.after {s : ParserState} (h : RunsWith config s) (p : Parser α) [hp : Readable p] :
    RunsWith config (p.after s) :=
  h.reads (hp.reads h.good)

lemma RunsWith.look {s : ParserState} (h : RunsWith config s) (mode : Mode) :
    RunsWith config (s.look mode) :=
  h.reads (.look mode (.refl s))

lemma RunsWith.start {s : ParserState} (h : RunsWith config s) : RunsWith config s.start :=
  ⟨good_start h.good, quiet_start h.quiet, h.config, h.unspent⟩

/-! ### Rows of statements -/

/-- What was added is a row of trees, and behind a group that no blank line ends no item of its kind
stands next. -/
def Rows (config : Config) (s u : ParserState) : Prop :=
  ∃ zs, u.forest.inner = zs.reverse ++ s.forest.inner ∧ Row config zs ∧
    ∀ z, zs.getLast? = some z → ∀ lineGroup, z.isNodeOf (groupKind lineGroup) = true →
      z.endsWithBlankLine = true ∨ u.kindAt .statement ≠ arrowOf lineGroup

namespace Rows

variable {s u v : ParserState}

lemma refl (s : ParserState) : Rows config s s := ⟨[], rfl, row_nil, by simp⟩

/-- Looking keeps a row. -/
lemma idle (h : Rows config s u) (hi : Idle u v) (hv : v.forest.inner = u.forest.inner) :
    Rows config s v := by
  obtain ⟨zs, h1, h2, h3⟩ := h
  refine ⟨zs, hv.trans h1, h2, ?_⟩
  rwa [kindAt, hi.ahead .statement rfl]

/-- Trees that are no groups can come behind a row. -/
lemma append (h : Rows config s u) {ys : List Tree} (hne : ys ≠ [])
    (hv : v.forest.inner = ys ++ u.forest.inner) (hys : ∀ y ∈ ys, Single config y) :
    Rows config s v := by
  obtain ⟨zs, h1, h2, -⟩ := h
  have hall : ∀ y ∈ ys.reverse, Single config y := fun y hy => hys y (List.mem_reverse.1 hy)
  refine ⟨zs ++ ys.reverse, by simp [hv, h1], h2.append hall, fun z hz lineGroup hk => ?_⟩
  rcases List.eq_nil_or_concat ys.reverse with hnil | ⟨xs, x, hx⟩
  · simp [hne] at hnil
  · rw [hx, List.concat_eq_append, ← List.append_assoc, List.getLast?_concat] at hz
    obtain rfl : x = z := by simpa using hz
    simp [isGroup_eq_false (hall x (by simp [hx])).noGroup lineGroup] at hk

lemma take (h : Rows config s u) (hu : u.Good) {mode : Mode} (hm : mode ≠ .afterOption) :
    Rows config s (u.take mode) :=
  h.append (List.cons_ne_nil _ []) (show (u.take mode).forest.inner =
      [.leaf (u.scanner.ahead mode).token] ++ u.forest.inner from rfl)
    (List.forall_mem_singleton.2
      (Graded.leaf (P := SingleAt config) 0 _ (hu.scanner.ahead_ne_blankLine hm)))

/-- So does what a rule adds, and one that adds nothing has taken nothing. -/
lemma grown {n : Nat} (h : Rows config s u) (hu : u.Good) (hr : Reads u v)
    (hg : Grown true (SingleAt config n) u v) : Rows config s v := by
  obtain ⟨⟨ys, hys, hsingle⟩, -⟩ := hg
  by_cases hne : ys = []
  · subst hne
    have hf := hr.follows hu
    have htokens : v.forest.tokens = u.forest.tokens := by
      rw [Forest.tokens, Forest.tokens, hys, hf.outer, List.nil_append]
    obtain ⟨ts, h1, h2⟩ := hr.fed
    have hbudget := h2 (by simpa [htokens] using h1)
    exact h.idle (hf.budget.resolve_left (by omega)) hys
  · exact h.append hne hys hsingle

/-- A group comes behind a row where its first arrow stood next. -/
lemma group (h : Rows config s u) {lineGroup : Bool} (hk : u.kindAt .statement = arrowOf lineGroup)
    {cs : List Tree} (hv : v.forest.inner = .node (groupKind lineGroup) cs :: u.forest.inner)
    (hg : WellGrouped config (.node (groupKind lineGroup) cs))
    (hend : (Tree.node (groupKind lineGroup) cs).endsWithBlankLine = true ∨
      v.kindAt .statement ≠ arrowOf lineGroup) : Rows config s v := by
  have hkind : ∀ b, (Tree.node (groupKind lineGroup) cs).isNodeOf (groupKind b) = true →
      b = lineGroup := by
    intro b hb
    revert hb
    cases lineGroup <;> cases b <;> simp [groupKind, isNodeOf]
  obtain ⟨zs, h1, h2, h3⟩ := h
  refine ⟨zs ++ [_], by rw [hv, h1]; simp, h2.concat hg rfl fun z hz b hzb hgb => ?_,
    fun z hz b hb => ?_⟩
  · obtain rfl := hkind b hgb
    exact (h3 z hz b hzb).resolve_right (not_not.2 hk)
  · rw [List.getLast?_concat, Option.some.injEq] at hz
    subst hz
    obtain rfl := hkind b hb
    exact hend

end Rows

/-- A rule that goes on with a row. -/
class Rowed (config : Config) (p : Parser α) : Prop where
  keeps : ∀ ⦃s u⦄, RunsWith config u → Rows config s u → Rows config s (p.after u)

namespace Rowed

lemma of_adds (n : Nat) {p : Parser α} (hr : Readable p)
    (hp : Adds true (SingleAt config n) p) : Rowed config p :=
  ⟨fun _ _ hu h => h.grown hu.good (hr.reads hu.good) (hp.grown hu.good)⟩

instance (a : α) : Rowed config (pure a : Parser α) := ⟨fun _ _ _ h => h⟩

instance (p : Parser α) (f : α → Parser β) [Readable p] [hp : Rowed config p]
    [hf : ∀ a, Rowed config (f a)] : Rowed config (p >>= f) :=
  ⟨fun _ _ hu h => (hf _).keeps (hu.after p) (hp.keeps hu h)⟩

lemma seq {p : Parser α} {f : α → Parser β} (hr : Readable p) (hp : Rowed config p)
    (hf : ∀ a, Rowed config (f a)) : Rowed config (p >>= f) :=
  inferInstance

instance {c : Prop} [Decidable c] (p q : Parser α) [hp : Rowed config p] [hq : Rowed config q] :
    Rowed config (if c then p else q) := by
  split
  · exact hp
  · exact hq

instance (step : σ → Parser (ForInStep σ)) (a : σ) [hr : ∀ a, Readable (step a)]
    [h : ∀ a, Rowed config (step a)] : Rowed config (loop step a) where
  keeps s _ hu hrows := (loop_keeps (fun a => (hr a).reads)
    (I := fun _ v => RunsWith config v ∧ Rows config s v)
    (fun a _ _ ⟨hv, hs⟩ => ⟨hv.after (step a), (h a).keeps hv hs⟩) hu.good ⟨hu, hrows⟩).2

lemma ifStuck {p : Parser α} {stuck on : Parser β} (hr : Readable p) (hp : Rowed config p)
    (hstuck : Rowed config stuck) (hon : Rowed config on) : Rowed config (ifStuck p stuck on) where
  keeps s u hu h := by
    have hmid := hp.keeps hu h
    rw [Parser.after, run_ifStuck]
    split
    · exact hstuck.keeps (hu.after p) hmid
    · exact hon.keeps (hu.after p) hmid

end Rowed

/-- What a rule that goes on with a row takes in a node. -/
lemma row_start {p : Parser α} [hp : Rowed config p] {s : ParserState} (hs : RunsWith config s) :
    Row config (p.after s.start).forest.trees := by
  obtain ⟨zs, h1, h2, -⟩ := hp.keeps hs.start (.refl _)
  rwa [Forest.trees, h1, show s.start.forest.inner = [] from rfl, List.append_nil,
    List.reverse_reverse]

/-- A node that is no group stands in a row of its own. -/
lemma rows_complete {p : Parser α} [hr : Readable p] [Rowed config p] {s u : ParserState}
    (hu : RunsWith config u) (h : Rows config s u) {k : Kind} (h1 : k ≠ .lineGroup)
    (h2 : k ≠ .shortcutOptionGroup) : Rows config s ((p.after u.start).complete k) :=
  h.grown (n := 0) hu.good (.node k (.refl u) (hr.reads (good_start hu.good)))
    ⟨⟨[_], by rw [hr.reads.inner_complete hu.good]; rfl,
      List.forall_mem_singleton.2 ((row_start hu).node h1 h2)⟩, by simp⟩

lemma Rowed.inNode {k : Kind} {p : Parser α} (hr : Readable p) (hp : Rowed config p)
    (h1 : k ≠ .lineGroup) (h2 : k ≠ .shortcutOptionGroup) : Rowed config (node k p) :=
  ⟨fun _ _ hu h => rows_complete hu h h1 h2⟩

lemma Rowed.inNodeOf {p : Parser Kind} (hr : Readable p) (hp : Rowed config p)
    (h : ∀ ⦃s⦄, RunsWith config s → p.answer s ≠ .lineGroup ∧ p.answer s ≠ .shortcutOptionGroup) :
    Rowed config (nodeOf p) :=
  ⟨fun _ _ hu hrows => rows_complete hu hrows (h hu.start).1 (h hu.start).2⟩

/-! ### Runs of statements -/

section
variable (levels : Nat) (statement : KindSet → Parser Unit) [∀ t, Rule (statement t)]
  [∀ t, Rowed config (statement t)] (terminators : KindSet)

instance : Rowed config (statementList statement terminators) := by
  have hstuck : Rowed config nothingTaken := by
    have : Adds true (SingleAt config 0) nothingTaken := by
      unfold nothingTaken
      infer_instance
    exact .of_adds 0 inferInstance this
  have : Rowed config (statementStep terminators statement) :=
    .ifStuck inferInstance inferInstance hstuck inferInstance
  have : Rowed config poll := .of_adds 0 inferInstance inferInstance
  have : Rowed config (endsStatements terminators) := .of_adds 0 inferInstance inferInstance
  have : Rowed config (listStep terminators statement) := by
    unfold listStep
    infer_instance
  unfold statementList
  infer_instance

instance : Rowed config (block statement) := by
  have : Rowed config (advance .statement) := .of_adds 0 inferInstance inferInstance
  have : Rowed config (expect .statement .dedent "expected the end of the indented block") :=
    .of_adds 0 inferInstance inferInstance
  unfold block
  exact .inNode inferInstance inferInstance (by simp) (by simp)

/-! ### Chains -/

lemma rowed_clause {kind : Kind} (h1 : kind ≠ .lineGroup) (h2 : kind ≠ .shortcutOptionGroup)
    (conditional : Bool) : Rowed config (clause levels statement kind conditional terminators) := by
  have hhead : Adds true (SingleAt config levels) (clauseHead levels conditional) := by
    unfold clauseHead clauseCommand
    infer_instance
  have : Rowed config (clauseHead levels conditional) := .of_adds levels inferInstance hhead
  rw [clause_eq]
  exact .inNode inferInstance inferInstance h1 h2

instance : Rowed config (onceClause levels statement terminators) := by
  have hhead : Adds true (SingleAt config levels) (onceHead levels) := by
    unfold onceHead onceCommand
    infer_instance
  have : Rowed config (onceHead levels) := .of_adds levels inferInstance hhead
  rw [onceClause_eq]
  exact .inNode inferInstance inferInstance (by simp) (by simp)

omit [∀ t, Rule (statement t)] [∀ t, Rowed config (statement t)] in
instance (afterElse : Bool) (message : String) : Rowed config (ambiguous afterElse message) := by
  have : Adds true (SingleAt config 0) (ambiguous afterElse message) := by
    unfold ambiguous
    infer_instance
  exact .of_adds 0 inferInstance this

omit [∀ t, Rule (statement t)] [∀ t, Rowed config (statement t)] in
instance (mode : Mode) : Rowed config (peekCommand mode) :=
  .of_adds 0 inferInstance inferInstance

omit [∀ t, Rule (statement t)] [∀ t, Rowed config (statement t)] in
instance (keyword kind : Kind) (message : String) : Rowed config (closeWith keyword kind message) :=
  .of_adds 0 inferInstance inferInstance

instance : Rowed config (ifStatement levels statement terminators) := by
  have hclause (kind : Kind) (h1 : kind ≠ .lineGroup) (h2 : kind ≠ .shortcutOptionGroup)
      (conditional : Bool) :
      Rowed config (clause levels statement kind conditional (terminators.union ifTerminators)) :=
    rowed_clause levels statement (terminators.union ifTerminators) h1 h2 conditional
  have := hclause .ifClause (by simp) (by simp) true
  have := hclause .elseIfClause (by simp) (by simp) true
  have := hclause .elseClause (by simp) (by simp) false
  have (afterElse : Bool) : Rowed config
      (ifStep statement levels (terminators.union ifTerminators) afterElse) := by
    unfold ifStep
    refine .seq inferInstance inferInstance fun keyword => ?_
    split <;> infer_instance
  have : Rowed config (nodeOf (clause levels statement .ifClause true
      (terminators.union ifTerminators) >>= fun _ =>
      loop (ifStep statement levels (terminators.union ifTerminators)) false >>= fun _ =>
        closeWith .endifKw .ifStmt "expected `<<endif>>`")) := by
    refine .inNodeOf inferInstance inferInstance fun s hs => ?_
    have hu := (hs.after
      (clause levels statement .ifClause true (terminators.union ifTerminators))).after
      (loop (ifStep statement levels (terminators.union ifTerminators)) false)
    rw [answer_bind, answer_bind, answer_closeWith hu.good]
    split <;> simp
  unfold ifStatement
  infer_instance

instance : Rowed config (onceStatement levels statement terminators) := by
  have : Rowed config
      (clause levels statement .onceElseClause false (terminators.union onceTerminators)) :=
    rowed_clause levels statement (terminators.union onceTerminators) (by simp) (by simp) false
  have (afterElse : Bool) : Rowed config
      (onceStep statement levels (terminators.union onceTerminators) afterElse) := by
    unfold onceStep
    infer_instance
  have : Rowed config
    (nodeOf (onceClause levels statement (terminators.union onceTerminators) >>= fun _ =>
      loop (onceStep statement levels (terminators.union onceTerminators)) false >>= fun _ =>
        closeWith .endonceKw .onceStmt "expected `<<endonce>>`")) := by
    refine .inNodeOf inferInstance inferInstance fun s hs => ?_
    have hu := (hs.after (onceClause levels statement (terminators.union onceTerminators))).after
      (loop (onceStep statement levels (terminators.union onceTerminators)) false)
    rw [answer_bind, answer_bind, answer_closeWith hu.good]
    split <;> simp
  unfold onceStatement
  infer_instance

omit [∀ t, Rule (statement t)] [∀ t, Rowed config (statement t)] in
/-- The blocks inside an enum hold no groups. -/
lemma rowed_enumCommand : Rowed config (enumCommand levels) := by
  have hhead : Adds true (SingleAt config levels) enumHead := by
    unfold enumHead enumName
    infer_instance
  have htail : Adds true (SingleAt config levels) (enumTail levels) :=
    adds_enumTail levels fun cs h => (row_of_singles h).node (by simp) (by simp)
  have : Rowed config enumHead := .of_adds levels inferInstance hhead
  have : Rowed config (enumTail levels) := .of_adds levels inferInstance htail
  have : Rowed config (nodeOf (enumHead >>= fun _ => enumTail levels)) := by
    refine .inNodeOf inferInstance inferInstance fun s hs => ?_
    rw [answer_bind]
    rcases answer_enumTail (n := levels) (hs.after enumHead).good with h | h <;> simp [h]
  rw [enumCommand]
  infer_instance

instance : Rowed config (command levels statement terminators) := by
  have : Rowed config (enumCommand levels) := rowed_enumCommand levels
  have other (p : Parser Unit) [hr : Readable p] [hp : Adds true (SingleAt config levels) p] :
      Rowed config p := .of_adds levels hr hp
  unfold command
  refine .seq inferInstance inferInstance fun keyword => ?_
  split
  · infer_instance
  · infer_instance
  · exact other (setCommand levels)
  · exact other (callCommand levels)
  · exact other (declareCommand levels)
  · exact other (jumpCommand levels)
  · exact other (jumpCommand levels)
  · exact other returnCommand
  · infer_instance
  · split
    · exact other (strayClause _)
    · exact other (freeCommand levels)
  · exact other (freeCommand levels)

end

end Parser

end DialogueScript
