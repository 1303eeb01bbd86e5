import DialogueScript.Tree.Basic
import Mathlib.Data.List.Forall2

/-!
A tree with something else in the place of its tokens: what is left of it if only a part of what its
tokens hold is of interest.
-/

namespace DialogueScript

inductive Outline (α : Type) where
  | leaf (a : α)
  | node (kind : Kind) (children : List (Outline α))

namespace Outline

variable {α : Type}

mutual

/-- What is left of the tokens, in order. -/
def leaves : Outline α → List α
  | leaf a => [a]
  | node _ cs => leavesAll cs

def leavesAll : List (Outline α) → List α
  | [] => []
  | c :: cs => leaves c ++ leavesAll cs

end

end Outline

namespace Tree

variable {α : Type} (f : Token → α)

mutual

/-- A tree in which only `f` is kept of each token. -/
def outline : Tree → Outline α
  | leaf t => .leaf (f t)
  | node k cs => .node k (outlineAll cs)

def outlineAll : List Tree → List (Outline α)
  | [] => []
  | c :: cs => outline c :: outlineAll cs

end

lemma outlineAll_eq_map (cs : List Tree) : outlineAll f cs = cs.map (outline f) := by
  induction cs with
  | nil => rfl
  | cons c cs ih => rw [outlineAll, ih, List.map_cons]

/-- Nodes of one kind are alike if their children are. -/
lemma outline_node_congr (k : Kind) {cs cs' : List Tree}
    (h : List.Forall₂ (fun c c' => outline f c = outline f c') cs cs') :
    outline f (.node k cs) = outline f (.node k cs') := by
  rw [outline, outline, outlineAll_eq_map, outlineAll_eq_map]
  congr 1
  induction h with
  | nil => rfl
  | cons h _ ih => rw [List.map_cons, List.map_cons, h, ih]

end Tree

end DialogueScript
