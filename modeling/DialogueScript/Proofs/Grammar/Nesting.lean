import DialogueScript.Proofs.Grammar.Layered
import DialogueScript.Proofs.Tree.Unclosed

/-!
How deep constructs can stand inside each other. Every statement and every operand takes one of the
levels that are left, so no path down a tree meets more nested constructs than there were levels.
Only the blocks in which the cases of an enum stand take none.
-/

namespace DialogueScript

namespace Tree

/-- Whether the keyword of an enum is among some trees. -/
def anyEnum (ts : List Tree) : Bool := ts.any (isTokenOf .enumKw)

mutual

/-- The most nested constructs on a path down a tree, without the blocks inside an enum. -/
def nesting (inEnum : Bool) : Tree → Nat
  | leaf _ => 0
  | node k cs =>
    (if k.nests && !(inEnum && k = .block) then 1 else 0) + nestingAll (inEnum || anyEnum cs) cs

def nestingAll (inEnum : Bool) : List Tree → Nat
  | [] => 0
  | c :: cs => max (nesting inEnum c) (nestingAll inEnum cs)

end

lemma nestingAll_le {b : Bool} {n : Nat} {cs : List Tree} :
    nestingAll b cs ≤ n ↔ ∀ c ∈ cs, c.nesting b ≤ n := by
  induction cs with
  | nil => simp [nestingAll]
  | cons c cs ih => simp only [nestingAll, Nat.max_le, ih, List.forall_mem_cons]

mutual

lemma nesting_inEnum_le (b : Bool) : (t : Tree) → t.nesting true ≤ t.nesting b
  | leaf _ => by simp [nesting]
  | node k cs => by
    have hall := nestingAll_inEnum_le (b || anyEnum cs) cs
    have hhead : (if k.nests && !(true && k = .block) then 1 else 0) ≤
        if k.nests && !(b && k = .block) then 1 else 0 := by
      by_cases hk : k = .block <;> cases b <;> cases k.nests <;> simp [hk]
    rw [nesting, nesting, Bool.true_or]
    omega

lemma nestingAll_inEnum_le (b : Bool) : (cs : List Tree) → nestingAll true cs ≤ nestingAll b cs
  | [] => by simp [nestingAll]
  | c :: cs => by
    have h1 := nesting_inEnum_le b c
    have h2 := nestingAll_inEnum_le b cs
    rw [nestingAll, nestingAll]
    omega

end

/-- A node around trees that are nested no deeper than `n`. -/
lemma nesting_node_le {b : Bool} {n : Nat} {cs : List Tree} (h : ∀ c ∈ cs, c.nesting b ≤ n)
    (k : Kind) :
    (node k cs).nesting b ≤ n + 1 ∧ (k.nests = false → (node k cs).nesting b ≤ n) := by
  have hall : nestingAll (b || anyEnum cs) cs ≤ n := by
    refine nestingAll_le.2 fun c hc => le_trans ?_ (h c hc)
    cases b <;> cases anyEnum cs
    all_goals first | exact le_rfl | exact nesting_inEnum_le _ c
  rw [nesting]
  refine ⟨?_, fun hk => by simpa [hk] using hall⟩
  split <;> omega

end Tree

namespace Parser

open ParserState

/-- Trees that are nested no deeper than a number of levels. -/
def Shallow (inEnum : Bool) (n : Nat) (t : Tree) : Prop := t.nesting inEnum ≤ n

lemma shallow_of_exprTree {b : Bool} {n floor : Nat} {t : Tree} (h : ExprTree n floor t) :
    Shallow b n t := by
  induction h with
  | leaf => simp [Shallow, Tree.nesting]
  | name _ ih => exact (Tree.nesting_node_le ih .name).2 rfl
  | error _ _ ih => exact (Tree.nesting_node_le ih .error).2 rfl
  | args _ ih => exact (Tree.nesting_node_le ih .argList).2 rfl
  | var _ ih => exact (Tree.nesting_node_le ih .variableExpr).2 rfl
  | operand _ _ ih => exact (Tree.nesting_node_le ih _).1
  | binary _ _ _ _ ih ihs =>
    exact (Tree.nesting_node_le (List.forall_mem_cons.2 ⟨ih, ihs⟩) .binaryExpr).2 rfl

lemma nests_of_isSimple {k : Kind} (h : k.isSimple = true) : k.nests = false := by
  unfold Kind.isSimple at h
  split at h
  all_goals first | rfl | exact absurd h (by decide)

instance (inEnum : Bool) : Graded (Shallow inEnum) where
  leaf _ _ := by simp [Shallow, Tree.nesting]
  node _ k _ hk _ h := (Tree.nesting_node_le h k).2 (nests_of_isSimple hk)
  error _ _ h := (Tree.nesting_node_le (fun c hc => (h c hc).1) .error).2 rfl
  expr _ _ := shallow_of_exprTree

/-! ### Enums -/

/-- Inside an enum, blocks are not counted. -/
lemma shallow_block {n : Nat} (cs : List Tree) (h : ∀ c ∈ cs, Shallow true n c) :
    Shallow true n (.node .block cs) := by
  have hall := Tree.nestingAll_le.2 h
  rw [Shallow, Tree.nesting, Bool.true_or]
  simpa using hall

/-- An enum is no deeper than what its cases hold. -/
lemma shallow_enum {n : Nat} {k : Kind} {cs : List Tree} (hk : k = .enumStmt ∨ k = .error)
    (henum : ∃ keyword : Token, keyword.kind = .enumKw ∧ .leaf keyword ∈ cs)
    (h : ∀ c ∈ cs, Shallow true n c) : Shallow false n (.node k cs) := by
  obtain ⟨keyword, hkeyword, hmem⟩ := henum
  have hany : Tree.anyEnum cs = true :=
    List.any_eq_true.2 ⟨_, hmem, by simp [Tree.isTokenOf, hkeyword]⟩
  have hnests : k.nests = false := by rcases hk with rfl | rfl <;> rfl
  rw [Shallow, Tree.nesting, hany, hnests]
  simpa using Tree.nestingAll_le.2 h

/-- **No construct is nested deeper than there are levels.** -/
instance : Layered (Shallow false) where
  token _ _ := by simp [Shallow, Tree.nesting]
  mono _ _ := Nat.le_succ_of_le
  flat _ k _ _ hk h := (Tree.nesting_node_le h k).2 hk
  deeper _ k _ _ h := (Tree.nesting_node_le h k).1
  enum n _ :=
    grown_enum (Graded.leaf (P := Shallow true) n) (adds_enumTail n shallow_block) fun _ _ =>
      shallow_enum

end Parser

end DialogueScript
