import DialogueScript.Proofs.Parse.Nesting

/-!
How many expressions stand inside each other. A level of nesting makes room for one operand and, in
front of it, for one step to the right of an operator of each precedence. Only steps to the left are
free: the loop that reads operators puts what it has read to the left of the next one, as often as
operators follow.
-/

namespace DialogueScript

lemma BinaryOp.two_le_precedence (op : BinaryOp) : 2 ≤ op.precedence := by
  cases op <;> decide

namespace Tree

mutual

/-- The most operands on a path down a tree, and with them the steps to the right of an operator. -/
def exprHeight : Tree → Nat
  | leaf _ => 0
  | node k cs =>
    if k = .binaryExpr then joinHeight cs
    else (if k.isExprKind then 1 else 0) + exprHeightAll cs

/-- The same for the children of a node that joins two operands. -/
def joinHeight : List Tree → Nat
  | [] => 0
  | c :: cs => max (exprHeight c) (exprHeightAll cs + 1)

def exprHeightAll : List Tree → Nat
  | [] => 0
  | c :: cs => max (exprHeight c) (exprHeightAll cs)

end

lemma exprHeightAll_le {n : Nat} {cs : List Tree} :
    exprHeightAll cs ≤ n ↔ ∀ c ∈ cs, c.exprHeight ≤ n := by
  induction cs with
  | nil => simp [exprHeightAll]
  | cons c cs ih => simp only [exprHeightAll, Nat.max_le, ih, List.forall_mem_cons]

lemma exprHeight_node {k : Kind} (hk : k ≠ .binaryExpr) (cs : List Tree) :
    (node k cs).exprHeight = (if k.isExprKind then 1 else 0) + exprHeightAll cs := by
  rw [exprHeight, if_neg hk]

lemma exprHeight_binary (c : Tree) (cs : List Tree) :
    (node .binaryExpr (c :: cs)).exprHeight = max c.exprHeight (exprHeightAll cs + 1) := by
  rw [exprHeight, if_pos rfl, joinHeight]

section
variable {n : Nat} {k : Kind} {cs : List Tree} (h : ∀ c ∈ cs, c.exprHeight ≤ n)
include h

/-- A node that is no expression adds nothing. -/
lemma exprHeight_node_le (hk : k.isExprKind = false) : (node k cs).exprHeight ≤ n := by
  have hne : k ≠ .binaryExpr := by
    rintro rfl
    simp [Kind.isExprKind] at hk
  rw [exprHeight_node hne, hk]
  simpa using exprHeightAll_le.2 h

lemma exprHeight_operand_le (hk : k ≠ .binaryExpr) : (node k cs).exprHeight ≤ n + 1 := by
  have hall := exprHeightAll_le.2 h
  rw [exprHeight_node hk]
  split <;> omega

end

end Tree

namespace Parser

/-- The room for operands, and for steps to the right, where a number of levels is left and
operators bind more tightly than `floor`. -/
def exprRoom (levels floor : Nat) : Nat :=
  BinaryOp.maxPrecedence * levels + (BinaryOp.maxPrecedence - max floor 1)

/-- **An expression fits into the room** that its levels leave. -/
lemma ExprTree.exprHeight_le {n floor : Nat} {t : Tree} (h : ExprTree n floor t) :
    t.exprHeight ≤ exprRoom n floor := by
  induction h with
  | leaf => exact Nat.zero_le _
  | name _ ih => exact Tree.exprHeight_node_le ih rfl
  | error _ _ ih => exact Tree.exprHeight_node_le ih rfl
  | args _ ih => exact Tree.exprHeight_node_le ih rfl
  | var _ ih =>
    apply (Tree.exprHeight_operand_le ih (by decide)).trans
    simp only [exprRoom, BinaryOp.maxPrecedence]
    omega
  | operand hk _ ih =>
    simp only [Kind.isOperand, Bool.and_eq_true, decide_eq_true_eq] at hk
    apply (Tree.exprHeight_operand_le ih hk.2).trans
    simp only [exprRoom, BinaryOp.maxPrecedence]
    omega
  | @binary n floor first cs op hop _ _ ih ihs =>
    have hright := Tree.exprHeightAll_le.2 ihs
    have hlow := op.two_le_precedence
    have hhigh := op.precedence_le
    rw [Tree.exprHeight_binary]
    simp only [exprRoom, BinaryOp.maxPrecedence] at *
    omega

/-- Trees whose expressions fit into the room of a number of levels. -/
def Roomy (n : Nat) (t : Tree) : Prop := t.exprHeight ≤ exprRoom n 0

lemma roomy_node {n : Nat} {k : Kind} {cs : List Tree} (hk : k.isExprKind = false)
    (h : ∀ c ∈ cs, Roomy n c) : Roomy n (.node k cs) :=
  Tree.exprHeight_node_le h hk

lemma not_isExprKind_of_isSimple {k : Kind} (h : k.isSimple = true) : k.isExprKind = false := by
  unfold Kind.isSimple at h
  split at h
  all_goals first | rfl | exact absurd h (by decide)

lemma not_isExprKind_of_holdsStatements {k : Kind} (h : k.holdsStatements = true) :
    k.isExprKind = false := by
  unfold Kind.holdsStatements at h
  split at h
  all_goals first | rfl | exact absurd h (by decide)

lemma Roomy.raise {n : Nat} {t : Tree} (h : Roomy n t) : Roomy (n + 1) t := by
  apply le_trans (b := exprRoom n 0) h
  simp only [exprRoom, BinaryOp.maxPrecedence]
  omega

instance : Graded Roomy where
  leaf _ _ _ := Nat.zero_le _
  node _ _ _ hk _ := roomy_node (not_isExprKind_of_isSimple hk)
  error _ _ h := roomy_node rfl fun c hc => (h c hc).1
  expr _ _ := ExprTree.exprHeight_le

instance : Layered Roomy where
  token _ _ := Nat.zero_le _
  mono _ _ := Roomy.raise
  flat _ _ _ hk _ := roomy_node (not_isExprKind_of_holdsStatements hk)
  deeper _ _ _ hk h := (roomy_node (not_isExprKind_of_holdsStatements hk) h).raise
  enum n _ :=
    grown_enum (Graded.leaf (P := Roomy) n) (adds_enumTail n fun _ => roomy_node rfl)
      fun k _ hk _ =>
      roomy_node (by rcases hk with rfl | rfl <;> rfl)

end Parser

open DialogueScript.Parser

namespace Located

/-- Whether an expression stands at this place. -/
def isExpr (l : Located) : Bool := l.isNode && l.kind.isExprKind

/-- Whether this place is to the left of an operator. -/
def isLeftOperand : Located → Bool
  | root _ => false
  | child parent index _ _ => index = 0 && parent.kind = .binaryExpr

/-- On how many expressions the way from the root to a place comes by. -/
def exprs (l : Located) : Nat := l.ancestors.countP isExpr

/-- How often the way from the root to a place goes to the left of an operator. -/
def leftSteps (l : Located) : Nat := l.ancestors.countP isLeftOperand

/-- What a place itself adds to the expressions around the places in it. -/
def ownExpr (l : Located) : Nat := if l.isExpr then 1 else 0

section
variable (parent : Located) (index offset : Nat) (t : Tree)

lemma exprs_child : (child parent index offset t).exprs =
    parent.exprs + (child parent index offset t).ownExpr := by
  rw [exprs, ancestors, List.countP_cons]
  rfl

lemma leftSteps_child : (child parent index offset t).leftSteps =
    parent.leftSteps + if index = 0 ∧ parent.kind = .binaryExpr then 1 else 0 := by
  rw [leftSteps, ancestors, List.countP_cons]
  simp [isLeftOperand, leftSteps]

end

lemma ownExpr_node {l : Located} {k : Kind} {cs : List Tree} (h : l.tree = .node k cs) :
    l.ownExpr = if k.isExprKind then 1 else 0 := by
  simp [ownExpr, isExpr, isNode, kind, h, Tree.isNode, Tree.kind]

mutual

/-- The expressions around a token are among those of the tree it stands in, but for the steps to
the left. -/
lemma exprs_elementsOf (l : Located) :
    (t : Tree) → l.tree = t → ∀ x ∈ elementsOf l t, x.isNode = false →
    x.exprs + l.leftSteps + l.ownExpr ≤ l.exprs + x.leftSteps + t.exprHeight
  | .leaf token, h, x, hx, _ => by
    have hown : l.ownExpr = 0 := by simp [ownExpr, isExpr, isNode, h, Tree.isNode]
    rw [elementsOf, List.mem_singleton] at hx
    rw [hx, hown]
    omega
  | .node k [], h, x, hx, hleaf => by
    rw [elementsOf, elementsOfAll, List.mem_singleton] at hx
    simp [hx, isNode, h, Tree.isNode] at hleaf
  | .node k (c :: cs), h, x, hx, hleaf => by
    have hkind : l.kind = k := by rw [kind, h, Tree.kind]
    have hown := ownExpr_node h
    have hexprs := exprs_child l 0 l.offset c
    have hleft := leftSteps_child l 0 l.offset c
    rw [hkind] at hleft
    rw [elementsOf, elementsOfAll, List.mem_cons, List.mem_append] at hx
    rcases hx with rfl | hx | hx
    · simp [isNode, h, Tree.isNode] at hleaf
    · have ih := exprs_elementsOf (child l 0 l.offset c) c rfl x hx hleaf
      by_cases hk : k = .binaryExpr
      · subst hk
        simp only [Kind.isExprKind, if_true, true_and] at hown hleft
        rw [Tree.exprHeight_binary]
        omega
      · simp only [hk, and_false, if_false] at hleft
        rw [Tree.exprHeight_node hk, Tree.exprHeightAll, ← hown]
        omega
    · have ih := exprs_elementsOfAll l 1 (l.offset + c.size) cs (.inl (by decide)) x hx hleaf
      by_cases hk : k = .binaryExpr
      · subst hk
        simp only [Kind.isExprKind, if_true] at hown
        rw [Tree.exprHeight_binary]
        omega
      · rw [Tree.exprHeight_node hk, Tree.exprHeightAll, ← hown]
        omega

/-- Behind the first child there are no steps to the left. -/
lemma exprs_elementsOfAll (l : Located) (index offset : Nat) : (cs : List Tree) →
    index ≠ 0 ∨ l.kind ≠ .binaryExpr → ∀ x ∈ elementsOfAll l index offset cs, x.isNode = false →
      x.exprs + l.leftSteps ≤ l.exprs + x.leftSteps + Tree.exprHeightAll cs
  | [], _, x, hx, _ => by simp [elementsOfAll] at hx
  | c :: cs, hplace, x, hx, hleaf => by
    have hexprs := exprs_child l index offset c
    have hleft := leftSteps_child l index offset c
    rw [if_neg (by tauto)] at hleft
    rw [Tree.exprHeightAll]
    rcases List.mem_append.1 hx with hx | hx
    · have ih := exprs_elementsOf (child l index offset c) c rfl x hx hleaf
      omega
    · have ih := exprs_elementsOfAll l (index + 1) (offset + c.size) cs (.inl (by omega)) x hx hleaf
      omega

end

lemma exprs_le_exprHeight (t : Tree) :
    ∀ x ∈ (root t).elements, x.isNode = false → x.exprs ≤ t.exprHeight + x.leftSteps := by
  intro x hx hleaf
  have h := exprs_elementsOf (root t) t rfl x hx hleaf
  have hroot : (root t).exprs = (root t).ownExpr := by
    rw [exprs, ancestors, List.countP_singleton]
    rfl
  omega

end Located

namespace Parse

/-- **Expressions stand inside each other as the levels allow**, but for the steps to the left of an
operator: on the way from the root to a token, each level makes room for one operand and for a step
to the right of an operator of each of the five precedences. -/
theorem exprs_le (config : Config) (t : Text) :
    ∀ l ∈ (ofText config t).root.elements, l.isNode = false →
      l.exprs ≤ 6 * maxDepth + 5 + l.leftSteps := by
  intro l hl hleaf
  have hroot : (ofText config t).tree.exprHeight ≤ exprRoom maxDepth 0 :=
    Tree.exprHeight_node_le (fun c hc => layered_children (P := Roomy) config t c (mem_trees.1 hc))
      rfl
  have h := Located.exprs_le_exprHeight _ l hl hleaf
  simp only [exprRoom, BinaryOp.maxPrecedence] at hroot
  omega

/-- The way to the last number goes by a sum, a product, parentheses and the number, that to the
first one once to the left. -/
theorem exprs_le_sum :
    ∃ l ∈ (ofText {} "title: A\n---\n\x7b1 + 2 * (3)\x7d\n===\n".toList).root.elements,
      l.isNode = false ∧ l.exprs = 4 ∧ l.leftSteps = 0 ∧
        l.exprs ≤ 6 * maxDepth + 5 + l.leftSteps := by
  obtain ⟨l, hl, hleaf, hexprs, hleft⟩ :
      ∃ l ∈ (ofText {} "title: A\n---\n\x7b1 + 2 * (3)\x7d\n===\n".toList).root.elements,
        l.isNode = false ∧ l.exprs = 4 ∧ l.leftSteps = 0 := by decide +kernel
  exact ⟨l, hl, hleaf, hexprs, hleft, exprs_le {} _ l hl hleaf⟩

/-- With the steps to the left, as many expressions stand inside each other as there are
operators. -/
theorem exprs_exceed_limit :
    (ofText {} (sumText 1024)).diagnostics = [] ∧
      ∃ l ∈ (ofText {} (sumText 1024)).root.elements, 1024 < l.exprs :=
  operators_nest {} 1024

end Parse

end DialogueScript
