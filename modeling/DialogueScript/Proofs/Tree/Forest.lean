import DialogueScript.Tree.Forest
import Mathlib.Tactic.Common

/-!
The text and the tokens of a tree, and of one that is being built. Opening and closing nodes moves
trees to another level and never changes their order.
-/

namespace DialogueScript

namespace Tree

@[simp] lemma textAll_nil : textAll [] = [] := by rw [textAll]

@[simp] lemma textAll_cons (c : Tree) (cs : List Tree) :
    textAll (c :: cs) = text c ++ textAll cs := by
  rw [textAll]

@[simp] lemma text_leaf (t : Token) : text (.leaf t) = t.fullText := by rw [text]

@[simp] lemma text_node (k : Kind) (cs : List Tree) : text (.node k cs) = textAll cs := by rw [text]

@[simp] lemma textAll_append (cs ds : List Tree) :
    textAll (cs ++ ds) = textAll cs ++ textAll ds := by
  induction cs with
  | nil => simp
  | cons c cs ih => simp [ih]

mutual

/-- The size of a tree is that of its text. -/
lemma size_eq : (t : Tree) → size t = Text.size (text t)
  | leaf t => by rw [size, text_leaf, Token.size]
  | node k cs => by rw [size, text_node, sizeAll_eq]

lemma sizeAll_eq : (cs : List Tree) → sizeAll cs = Text.size (textAll cs)
  | [] => by rw [sizeAll, textAll_nil]; rfl
  | c :: cs => by rw [sizeAll, textAll_cons, Text.size_append, size_eq c, sizeAll_eq cs]

end

mutual

/-- The tokens of a tree, in order. -/
def tokens : Tree → List Token
  | leaf t => [t]
  | node _ cs => tokensAll cs

def tokensAll : List Tree → List Token
  | [] => []
  | c :: cs => tokens c ++ tokensAll cs

end

lemma tokensAll_eq (cs : List Tree) : tokensAll cs = cs.flatMap tokens := by
  induction cs with
  | nil => rw [tokensAll, List.flatMap_nil]
  | cons c cs ih => rw [tokensAll, List.flatMap_cons, ih]

@[simp] lemma tokens_leaf (t : Token) : tokens (.leaf t) = [t] := by rw [tokens]

@[simp] lemma tokens_node (k : Kind) (cs : List Tree) :
    tokens (.node k cs) = cs.flatMap tokens := by
  rw [tokens, tokensAll_eq]

mutual

/-- The text of a tree is that of its tokens. -/
lemma text_eq_tokens : (t : Tree) → t.text = t.tokens.flatMap Token.fullText
  | .leaf t => by simp
  | .node k cs => by rw [text_node, tokens, textAll_eq_tokens]

lemma textAll_eq_tokens : (cs : List Tree) → textAll cs = (tokensAll cs).flatMap Token.fullText
  | [] => by simp [tokensAll]
  | c :: cs => by
      rw [textAll_cons, tokensAll, text_eq_tokens c, textAll_eq_tokens cs, List.flatMap_append]

end

end Tree

namespace Forest

/-- The text of all finished trees, those of the outermost node first. -/
def text (f : Forest) : Text := Tree.textAll ((f.inner :: f.outer).reverse.flatMap List.reverse)

/-- The tokens of all finished trees, those of the outermost node first. -/
def tokens (f : Forest) : List Token :=
  ((f.inner :: f.outer).reverse.flatMap List.reverse).flatMap Tree.tokens

variable (f : Forest)

@[simp] lemma text_add (t : Tree) : (f.add t).text = f.text ++ t.text := by
  simp [text, add]

@[simp] lemma text_start : f.start.text = f.text := by
  simp [text, start]

@[simp] lemma text_complete (k : Kind) : (f.complete k).text = f.text := by
  unfold complete
  split
  · rfl
  · next level outer h => simp [text, trees, h]

@[simp] lemma text_abandon : f.abandon.text = f.text := by
  unfold abandon
  split
  · rfl
  · next level outer h => simp [text, h]

@[simp] lemma text_precede : f.precede.text = f.text := by
  unfold precede
  split
  · simp
  · next newest level h => simp [text, h]

lemma tokens_add (t : Tree) : (f.add t).tokens = f.tokens ++ t.tokens := by
  simp [tokens, add]

lemma tokens_start : f.start.tokens = f.tokens := by
  simp [tokens, start]

lemma tokens_complete (k : Kind) : (f.complete k).tokens = f.tokens := by
  unfold complete
  split
  · rfl
  · next level outer h => simp [tokens, trees, h]

lemma tokens_abandon : f.abandon.tokens = f.tokens := by
  unfold abandon
  split
  · rfl
  · next level outer h => simp [tokens, h]

lemma tokens_precede : f.precede.tokens = f.tokens := by
  unfold precede
  split
  · exact tokens_start f
  · next newest level h => simp [tokens, h]

end Forest

end DialogueScript
