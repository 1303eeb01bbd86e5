import DialogueScript.Token

/-!
Trees that keep every character of the text they were made from. A leaf is a token with its trivia,
and a node has a kind and children. A tree knows neither its position nor its parent.
-/

namespace DialogueScript

inductive Tree where
  | leaf (token : Token)
  | node (kind : Kind) (children : List Tree)
deriving Repr

namespace Tree

instance : Inhabited Tree := ⟨.node .error []⟩

def kind : Tree → Kind
  | leaf t => t.kind
  | node k _ => k

def isNode : Tree → Bool
  | leaf _ => false
  | node .. => true

def children : Tree → List Tree
  | leaf _ => []
  | node _ cs => cs

mutual

/-- The length of the text in bytes. -/
def size : Tree → Nat
  | leaf t => t.size
  | node _ cs => sizeAll cs

def sizeAll : List Tree → Nat
  | [] => 0
  | c :: cs => size c + sizeAll cs

end

mutual

/-- The text of all tokens with their trivia, in order. -/
def text : Tree → Text
  | leaf t => t.fullText
  | node _ cs => textAll cs

def textAll : List Tree → Text
  | [] => []
  | c :: cs => text c ++ textAll cs

end

mutual

/-- How many nodes there are, the root included. -/
def nodeCount : Tree → Nat
  | leaf _ => 0
  | node _ cs => nodeCountAll cs + 1

def nodeCountAll : List Tree → Nat
  | [] => 0
  | c :: cs => nodeCount c + nodeCountAll cs

end

mutual

def decEq : (a b : Tree) → Decidable (a = b)
  | leaf s, leaf t =>
    if h : s = t then isTrue (by rw [h]) else isFalse (by simpa using h)
  | leaf _, node .. => isFalse (by simp)
  | node .., leaf _ => isFalse (by simp)
  | node j as, node k bs =>
    if hk : j = k then
      match decEqAll as bs with
      | isTrue h => isTrue (by rw [hk, h])
      | isFalse h => isFalse (by simpa [hk] using h)
    else isFalse (by simp [hk])

def decEqAll : (as bs : List Tree) → Decidable (as = bs)
  | [], [] => isTrue rfl
  | [], _ :: _ => isFalse (by simp)
  | _ :: _, [] => isFalse (by simp)
  | a :: as, b :: bs =>
    match decEq a b with
    | isTrue h =>
      match decEqAll as bs with
      | isTrue h' => isTrue (by rw [h, h'])
      | isFalse h' => isFalse (by simpa [h] using h')
    | isFalse h => isFalse (by simp [h])

end

instance : DecidableEq Tree := decEq

/-- The tree with another child at `index`, if there is a child there. -/
def replaceChild? (t : Tree) (index : Nat) (child : Tree) : Option Tree :=
  match t with
  | leaf _ => none
  | node k cs => if index < cs.length then some (node k (cs.set index child)) else none

/-- For each child that is a node, whether it differs from the child number `replaced`: those are
the children that a replacement there takes over. -/
def takenOver (t : Tree) (replaced : Nat) : List Bool :=
  (t.children.zipIdx.filter fun (c, _) => c.isNode).map fun (_, i) => i ≠ replaced

/-- A node in one line: its kind, its size and the number of its children. -/
def summary (t : Tree) : String :=
  s!"GreenNode \x7b kind: {t.kind.label}, text_len: {t.size}, children: {t.children.length} \x7d"

end Tree

end DialogueScript
