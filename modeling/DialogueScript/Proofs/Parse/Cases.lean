import DialogueScript.Proofs.Ast
import DialogueScript.Proofs.Parse.Nesting
import DialogueScript.Proofs.Tree.Groups

/-!
The cases of an enum. They stand in it or in its blocks, and blocks can stand in each other as deep
as they are indented. What the tree is read as has those cases that at most one block is around.
-/

set_option synthInstance.maxSize 4096

namespace DialogueScript

namespace Tree

mutual

/-- The children of every case in a tree, in order. With each of them goes how many blocks are
around it, where `blocks` of them are around the tree. -/
def casesIn (blocks : Nat) : Tree → List (Nat × List Tree)
  | leaf _ => []
  | node k cs =>
    (if k = .enumCase then [(blocks, cs)] else []) ++
      casesInAll (if k = .block then blocks + 1 else blocks) cs

def casesInAll (blocks : Nat) : List Tree → List (Nat × List Tree)
  | [] => []
  | c :: cs => casesIn blocks c ++ casesInAll blocks cs

end

mutual

/-- No case in a tree is left out. -/
lemma map_casesIn (blocks : Nat) : (t : Tree) →
    (casesIn blocks t).map (fun c => node .enumCase c.2) = t.subtrees.filter (isNodeOf .enumCase)
  | leaf _ => by simp [casesIn, subtrees, isNodeOf]
  | node k cs => by
    rw [casesIn, subtrees, List.filter_cons, List.map_append, map_casesInAll]
    by_cases hk : k = .enumCase <;> simp [hk, isNodeOf]

lemma map_casesInAll (blocks : Nat) : (cs : List Tree) →
    (casesInAll blocks cs).map (fun c => node .enumCase c.2) = (subtreesAll cs).filter
    (isNodeOf .enumCase)
  | [] => by simp [casesInAll, subtreesAll]
  | c :: cs => by
    rw [casesInAll, subtreesAll, List.filter_append, List.map_append, map_casesIn, map_casesInAll]

end

mutual

/-- The blocks that are around a tree are around its cases. -/
lemma le_of_mem_casesIn (blocks : Nat) : (t : Tree) → ∀ c ∈ casesIn blocks t, blocks ≤ c.1
  | leaf _, c, hc => by simp [casesIn] at hc
  | node k cs, c, hc => by
    rw [casesIn, List.mem_append] at hc
    rcases hc with hc | hc
    · obtain ⟨-, rfl⟩ : k = .enumCase ∧ c = (blocks, cs) := by simpa using hc
      exact le_rfl
    · apply le_trans _ (le_of_mem_casesInAll _ cs c hc)
      split <;> omega

lemma le_of_mem_casesInAll (blocks : Nat) :
    (cs : List Tree) → ∀ c ∈ casesInAll blocks cs, blocks ≤ c.1
  | [], c, hc => by simp [casesInAll] at hc
  | d :: cs, c, hc => by
    rcases List.mem_append.1 hc with hc | hc
    · exact le_of_mem_casesIn blocks d c hc
    · exact le_of_mem_casesInAll blocks cs c hc

end

/-- Nothing that makes up an enum is in a tree. -/
def CaseFree (t : Tree) : Prop :=
  ∀ k cs, node k cs ∈ t.subtrees → k ≠ .enumStmt ∧ k ≠ .enumCase ∧ k ≠ .block

lemma caseFree_leaf (token : Token) : CaseFree (leaf token) := by
  intro k cs h
  simp [subtrees] at h

lemma caseFree_node {k : Kind} {cs : List Tree} (hk : k ≠ .enumStmt ∧ k ≠ .enumCase ∧ k ≠ .block)
    (h : ∀ c ∈ cs, CaseFree c) : CaseFree (node k cs) := by
  intro j ds hmem
  rcases mem_subtrees_node.1 hmem with heq | ⟨c, hc, hmem⟩
  · injection heq with heq
    rwa [heq]
  · exact h c hc j ds hmem

lemma CaseFree.casesIn_eq {t : Tree} (h : CaseFree t) (blocks : Nat) : casesIn blocks t = [] := by
  have hmap := map_casesIn blocks t
  rw [List.filter_eq_nil_iff.2, List.map_eq_nil_iff] at hmap
  · exact hmap
  · intro c hc hcase
    obtain ⟨cs, rfl⟩ := isNodeOf_iff.1 hcase
    exact (h _ cs hc).2.1 rfl

lemma casesInAll_of_caseFree {cs : List Tree} (h : ∀ c ∈ cs, CaseFree c) (blocks : Nat) :
    casesInAll blocks cs = [] := by
  induction cs with
  | nil => rfl
  | cons c cs ih =>
    rw [casesInAll, (h c List.mem_cons_self).casesIn_eq,
      ih fun d hd => h d (List.mem_cons_of_mem _ hd)]
    rfl

/-- What can stand in an enum: cases, blocks of such parts, and trees that have nothing of an
enum. -/
inductive EnumPart : Tree → Prop
  | free {t : Tree} : CaseFree t → EnumPart t
  | case {cs : List Tree} : (∀ c ∈ cs, CaseFree c) → EnumPart (node .enumCase cs)
  | block {cs : List Tree} : (∀ c ∈ cs, EnumPart c) → EnumPart (node .block cs)

/-- The cases that are read from a block are those that no further block is around. -/
lemma nodesAmong_enumCase {cs : List Tree} (h : ∀ c ∈ cs, EnumPart c) :
    ((casesInAll 1 cs).filter (·.1 ≤ 1)).map (·.2) = nodesAmong .enumCase cs := by
  induction cs with
  | nil => rfl
  | cons c cs ih =>
    rw [casesInAll, List.filter_append, List.map_append,
      ih fun d hd => h d (List.mem_cons_of_mem _ hd)]
    cases h c List.mem_cons_self with
    | free hfree =>
      rw [hfree.casesIn_eq]
      rcases c with token | ⟨k, ds⟩
      · rfl
      · simp [(hfree k ds (self_mem_subtrees _)).2.1]
    | @case ds hds => simp [casesIn, casesInAll_of_caseFree hds]
    | @block ds hds =>
      have hdeep : (casesInAll 2 ds).filter (·.1 ≤ 1) = [] := by
        refine List.filter_eq_nil_iff.2 fun d hd => ?_
        have := le_of_mem_casesInAll 2 ds d hd
        simp only [decide_eq_true_eq]
        omega
      simp [casesIn, hdeep]

/-- The cases that are read from an enum are those that at most one block is around. -/
lemma casesAmong_eq {cs : List Tree} (h : ∀ c ∈ cs, EnumPart c) :
    casesAmong cs = ((casesInAll 0 cs).filter (·.1 ≤ 1)).map (EnumCase.ofChildren ·.2) := by
  induction cs with
  | nil => rfl
  | cons c cs ih =>
    have hsplit : casesAmong (c :: cs) = casesAmong [c] ++ casesAmong cs := by
      rw [casesAmong, casesAmong, casesAmong, List.flatMap_cons, List.flatMap_singleton]
    rw [hsplit, casesInAll, List.filter_append, List.map_append,
      ih fun d hd => h d (List.mem_cons_of_mem _ hd), List.append_left_inj]
    cases h c List.mem_cons_self with
    | free hfree =>
      rw [hfree.casesIn_eq]
      rcases c with token | ⟨k, ds⟩
      · rfl
      · simp [casesAmong, (hfree k ds (self_mem_subtrees _)).2]
    | @case ds hds => simp [casesIn, casesInAll_of_caseFree hds, casesAmong]
    | @block ds hds =>
      have hcases := nodesAmong_enumCase hds
      simp [casesIn, casesAmong, ← hcases]

/-- Every enum in a tree consists of such parts. -/
def EnumsFormed (t : Tree) : Prop := ∀ cs, node .enumStmt cs ∈ t.subtrees → ∀ c ∈ cs, EnumPart c

lemma enumsFormed_leaf (token : Token) : EnumsFormed (leaf token) := by
  intro cs h
  simp [subtrees] at h

lemma enumsFormed_node {k : Kind} {cs : List Tree} (hk : k = .enumStmt → ∀ c ∈ cs, EnumPart c)
    (h : ∀ c ∈ cs, EnumsFormed c) : EnumsFormed (node k cs) := by
  intro ds hmem
  rcases mem_subtrees_node.1 hmem with heq | ⟨c, hc, hmem⟩
  · obtain ⟨rfl, rfl⟩ : k = .enumStmt ∧ cs = ds := by
      injection heq with h1 h2; exact ⟨h1.symm, h2.symm⟩
    exact hk rfl
  · exact h c hc ds hmem

lemma CaseFree.enumsFormed {t : Tree} (h : CaseFree t) : EnumsFormed t := by
  intro cs hmem
  exact absurd rfl (h _ cs hmem).1

lemma EnumPart.enumsFormed {t : Tree} (h : EnumPart t) : EnumsFormed t := by
  induction h with
  | free h => exact h.enumsFormed
  | case h => exact enumsFormed_node (by simp) fun c hc => (h c hc).enumsFormed
  | block _ ih => exact enumsFormed_node (by simp) ih

end Tree

namespace Parser

open ParserState DialogueScript.Tree

instance : Tolerant CaseFree where
  leaf token _ := caseFree_leaf token
  name _ := caseFree_node (by simp)
  error _ h := caseFree_node (by simp) fun c hc => (h c hc).1

lemma caseFree_of_exprTree {n floor : Nat} {t : Tree} (h : ExprTree n floor t) : CaseFree t := by
  refine h.closed fun k cs hk => caseFree_node ⟨?_, ?_, ?_⟩
  all_goals rintro rfl; simp [Kind.isExprKind] at hk

/-! ### The parts of an enum -/

section
variable {α : Type} (levels : Nat)

lemma adds_enumPart {p : Parser α} (h : Adds true CaseFree p) : Adds true EnumPart p :=
  h.mono fun _ => .free

instance : Adds true CaseFree (expr levels) :=
  Adds.mono (P := ExprTree levels 0) inferInstance fun _ => caseFree_of_exprTree

instance : Adds true EnumPart (enumCase levels) := by
  unfold enumCase
  exact .inNode (Q := CaseFree) inferInstance inferInstance fun _ => .case

instance (cases : Nat) : Adds true EnumPart (caseLine levels cases) := by
  have : Adds true EnumPart (errorLine .statement "only `<<case>>` lines are allowed in an enum") :=
    adds_enumPart inferInstance
  have : Adds true EnumPart eatNewline := adds_enumPart inferInstance
  unfold caseLine caseOr
  infer_instance

lemma adds_enumPart_tail : Adds true EnumPart (enumTail levels) := by
  have : Adds true EnumPart (advance .statement) := adds_enumPart inferInstance
  have : Adds true EnumPart (closeWith .endenumKw .enumStmt "expected `<<endenum>>`") :=
    adds_enumPart inferInstance
  exact adds_enumTail levels fun _ => .block

end

/-! ### Enums -/

lemma enumsFormed_of_ne {k : Kind} {cs : List Tree} (hk : k ≠ .enumStmt)
    (h : ∀ c ∈ cs, EnumsFormed c) :
    EnumsFormed (.node k cs) :=
  enumsFormed_node (fun heq => absurd heq hk) h

instance : Graded fun _ => EnumsFormed where
  leaf _ token _ := enumsFormed_leaf token
  node _ _ _ hk _ := enumsFormed_of_ne (Kind.ne_of_isSimple hk rfl)
  error _ _ h := enumsFormed_of_ne (by simp) fun c hc => (h c hc).1
  expr _ _ h := (caseFree_of_exprTree h).enumsFormed

/-- **Every enum consists of cases and blocks of them**, but for trees in which there are none. -/
instance : Layered fun _ => EnumsFormed where
  token _ := enumsFormed_leaf
  mono _ _ h := h
  flat _ k _ hk _ := enumsFormed_of_ne (by rintro rfl; simp [Kind.holdsStatements] at hk)
  deeper _ k _ hk := enumsFormed_of_ne (by rintro rfl; simp [Kind.holdsStatements] at hk)
  enum n _ := by
    have : Adds true EnumPart (name nameRecovery) := adds_enumPart inferInstance
    have : Adds true EnumPart commandClose := adds_enumPart inferInstance
    exact grown_enum (fun token _ => .free (caseFree_leaf token)) (adds_enumPart_tail n) fun _
      _ _ _ h =>
      enumsFormed_node (fun _ => h) fun c hc => (h c hc).enumsFormed

end Parser

open DialogueScript.Parser ParserState

namespace Parse

open DialogueScript.Tree

/-- **Of the cases in an enum, those are read that at most one block is around**, in order. -/
theorem cases_of_enum (config : Config) (t : Text) :
    ∀ cs, .node .enumStmt cs ∈ (ofText config t).tree.subtrees →
      (casesInAll 0 cs).map (fun c => .node .enumCase c.2) =
        (subtreesAll cs).filter (isNodeOf .enumCase) ∧
      casesAmong cs = ((casesInAll 0 cs).filter (·.1 ≤ 1)).map (EnumCase.ofChildren ·.2) := by
  intro cs hmem
  have hformed : EnumsFormed (ofText config t).tree := by
    refine enumsFormed_of_ne (k := .sourceFile) (by simp) fun c hc => ?_
    exact layered_children (P := fun _ => EnumsFormed) config t c (mem_trees.1 hc)
  exact ⟨map_casesInAll 0 cs, casesAmong_eq (hformed cs hmem)⟩

/-- Three cases, of which one stands in a block and one in a block of it. -/
theorem cases_of_enum_blocks :
    ∃ cs, .node .enumStmt cs ∈
        (ofText {} ("title: A\n---\n<<enum E>>\n<<case A>>\n  <<case B>>\n" ++
        "    <<case C>>\n<<endenum>>\n===\n").toList).tree.subtrees ∧
      (casesInAll 0 cs).map (·.1) = [0, 1, 2] ∧
      (casesInAll 0 cs).map (fun c => .node .enumCase c.2) = (subtreesAll cs).filter
    (isNodeOf .enumCase) ∧
      casesAmong cs = ((casesInAll 0 cs).filter (·.1 ≤ 1)).map (EnumCase.ofChildren ·.2) := by
  have henum : ∃ c ∈ (ofText {} ("title: A\n---\n<<enum E>>\n<<case A>>\n  <<case B>>\n" ++
        "    <<case C>>\n<<endenum>>\n===\n").toList).tree.subtrees,
      c.isNodeOf .enumStmt = true ∧ (casesInAll 0 c.children).map (·.1) = [0, 1, 2] := by
        decide +kernel
  obtain ⟨c, hc, hk, hcases⟩ := henum
  obtain ⟨cs, rfl⟩ := isNodeOf_iff.1 hk
  exact ⟨cs, hc, hcases, cases_of_enum {} _ cs hc⟩

/-- A case in a block of a block is in the enum, but it is not read. -/
theorem case_in_inner_block :
    (ofText {} ("title: A\n---\n<<enum E>>\n    <<case A>>\n        <<case B>>\n" ++
      "<<endenum>>\n===\n").toList).diagnostics = [] ∧
    ∃ c ∈ (ofText {} ("title: A\n---\n<<enum E>>\n    <<case A>>\n        <<case B>>\n" ++
        "<<endenum>>\n===\n").toList).tree.subtrees,
      c.isNodeOf .enumStmt = true ∧ (casesAmong c.children).length = 1 ∧
        ((subtreesAll c.children).filter (isNodeOf .enumCase)).length = 2 := by
  decide +kernel

end Parse

end DialogueScript
