import DialogueScript.Ast.Script
import DialogueScript.Ast.View
import Mathlib.Tactic.Lemma

/-!
What the readers of a tree find among the children of a node, child by child.
-/

namespace DialogueScript

/-! ### Tokens and nodes -/

@[simp] lemma hasToken_nil (k : Kind) : hasToken k [] = false := rfl

@[simp] lemma hasToken_leaf (k : Kind) (t : Token) (cs : List Tree) :
    hasToken k (.leaf t :: cs) = (decide (t.kind = k) || hasToken k cs) := by
  by_cases h : t.kind = k <;> simp [hasToken, tokenAmong?, h]

@[simp] lemma hasToken_node (k j : Kind) (ds cs : List Tree) :
    hasToken k (.node j ds :: cs) = hasToken k cs := rfl

@[simp] lemma hasToken_append (k : Kind) (cs ds : List Tree) :
    hasToken k (cs ++ ds) = (hasToken k cs || hasToken k ds) := by
  induction cs with
  | nil => simp
  | cons c cs ih => cases c <;> simp [ih, Bool.or_assoc]

@[simp] lemma nodesAmong_nil (k : Kind) : nodesAmong k [] = [] := rfl

@[simp] lemma nodesAmong_leaf (k : Kind) (t : Token) (cs : List Tree) :
    nodesAmong k (.leaf t :: cs) = nodesAmong k cs := rfl

@[simp] lemma nodesAmong_node (k j : Kind) (ds cs : List Tree) :
    nodesAmong k (.node j ds :: cs) = (if j = k then [ds] else []) ++ nodesAmong k cs := by
  by_cases h : j = k <;> simp [nodesAmong, h]

@[simp] lemma nodesAmong_append (k : Kind) (cs ds : List Tree) :
    nodesAmong k (cs ++ ds) = nodesAmong k cs ++ nodesAmong k ds := by
  simp [nodesAmong]

/-! ### Expressions -/

namespace Expr

@[simp] lemma ofTree?_leaf (t : Token) : ofTree? (.leaf t) = none := by rw [ofTree?]

@[simp] lemma ofAll_nil : ofAll [] = [] := by rw [ofAll]

lemma ofAll_cons (t : Tree) (ts : List Tree) :
    ofAll (t :: ts) = (ofTree? t).toList ++ ofAll ts := by
  rw [ofAll]
  split <;> simp [*]

@[simp] lemma ofAll_append (ts us : List Tree) : ofAll (ts ++ us) = ofAll ts ++ ofAll us := by
  induction ts with
  | nil => simp
  | cons t ts ih => simp [ofAll_cons, ih]

end Expr

/-! ### Statements -/

namespace Stmt

@[simp] lemma ofTree?_leaf (t : Token) : ofTree? (.leaf t) = none := by rw [ofTree?]

@[simp] lemma ofAll_nil : ofAll [] = [] := by rw [ofAll]

lemma ofAll_cons (t : Tree) (ts : List Tree) :
    ofAll (t :: ts) = (ofTree? t).toList ++ ofAll ts := by
  rw [ofAll]
  split <;> simp [*]

@[simp] lemma ofAll_append (ts us : List Tree) : ofAll (ts ++ us) = ofAll ts ++ ofAll us := by
  induction ts with
  | nil => simp
  | cons t ts ih => simp [ofAll_cons, ih]

lemma isStmtKind_of_ofTree? {k : Kind} {cs : List Tree} {x : Stmt}
    (h : ofTree? (.node k cs) = some x) :
    k.isStmtKind = true := by
  cases k <;> simp [ofTree?] at h <;> rfl

lemma isExprKind_of_ofTree? {k : Kind} {cs : List Tree} {e : Expr}
    (h : Expr.ofTree? (.node k cs) = some e) : k.isExprKind = true := by
  cases k <;> simp [Expr.ofTree?] at h <;> rfl

lemma not_isExprKind {k : Kind} (h : k.isStmtKind = true) : k.isExprKind = false := by
  cases k <;> simp [Kind.isStmtKind] at h <;> rfl

/-- What stands for a statement stands for no expression. -/
lemma expr_eq_none {t : Tree} {x : Stmt} (h : ofTree? t = some x) : Expr.ofTree? t = none := by
  rcases t with token | ⟨k, cs⟩
  · simp
  · rcases he : Expr.ofTree? (.node k cs) with _ | e
    · rfl
    · have := not_isExprKind (isStmtKind_of_ofTree? h)
      simp [isExprKind_of_ofTree? he] at this

/-- What stands for an expression stands for no statement. -/
lemma eq_none_of_expr {t : Tree} {e : Expr} (h : Expr.ofTree? t = some e) : ofTree? t = none := by
  rcases hx : ofTree? t with _ | x
  · rfl
  · simp [expr_eq_none hx] at h

@[simp] lemma clausesOf_nil (k : Kind) : clausesOf k [] = [] := by rw [clausesOf]

@[simp] lemma clausesOf_leaf (k : Kind) (t : Token) (cs : List Tree) :
    clausesOf k (.leaf t :: cs) = clausesOf k cs := by rw [clausesOf]

@[simp] lemma clausesOf_node (k kind : Kind) (ds cs : List Tree) :
    clausesOf k (.node kind ds :: cs) =
    (if kind = k then [⟨Expr.among? ds, ofAll ds⟩] else []) ++ clausesOf k cs := by
  rw [clausesOf]
  split <;> rfl

@[simp] lemma clausesOf_append (k : Kind) (cs ds : List Tree) :
    clausesOf k (cs ++ ds) = clausesOf k cs ++ clausesOf k ds := by
  induction cs with
  | nil => simp
  | cons c cs ih => cases c <;> simp [ih]

@[simp] lemma itemsOf_nil (k : Kind) : itemsOf k [] = [] := by rw [itemsOf]

@[simp] lemma itemsOf_node (k kind : Kind) (ds cs : List Tree) : itemsOf k (.node kind ds :: cs) =
    (if kind = k then [⟨(nodeAmong? .lineStmt ds).map Line.ofChildren, blockOf? ds⟩] else []) ++
      itemsOf k cs := by
  rw [itemsOf]
  split <;> rfl

end Stmt

end DialogueScript
