import DialogueScript.Tree.Basic

/-!
A place in a tree: a subtree together with its position and the nodes around it. Places are made on
the way down from the root.
-/

namespace DialogueScript

inductive Located where
  | root (tree : Tree)
  /-- The child number `index` of the place above, whose text starts at `offset`. -/
  | child (parent : Located) (index offset : Nat) (tree : Tree)

namespace Located

def tree : Located → Tree
  | root t => t
  | child _ _ _ t => t

def offset : Located → Nat
  | root _ => 0
  | child _ _ o _ => o

/-- The position among the parent's children, tokens included. -/
def index : Located → Nat
  | root _ => 0
  | child _ i _ _ => i

def parent? : Located → Option Located
  | root _ => none
  | child p _ _ _ => some p

/-- The indices on the way from here up to the root; they tell places of one tree apart. -/
def path : Located → List Nat
  | root _ => []
  | child p i _ _ => i :: p.path

/-- The place itself, and every place around it up to the root. -/
def ancestors : Located → List Located
  | root t => [root t]
  | child p i o t => child p i o t :: p.ancestors

/-- How many nodes are around this place. -/
def depth (l : Located) : Nat := l.path.length

def kind (l : Located) : Kind := l.tree.kind

def isNode (l : Located) : Bool := l.tree.isNode

def range (l : Located) : Range := .ofSize l.offset l.tree.size

/-- The places of some children in a row, of which the first has the given index and offset. -/
def placeAll (parent : Located) (index offset : Nat) : List Tree → List Located
  | [] => []
  | c :: cs => child parent index offset c :: placeAll parent (index + 1) (offset + c.size) cs

/-- All children, tokens included. -/
def children (l : Located) : List Located := placeAll l 0 l.offset l.tree.children

def childNodes (l : Located) : List Located := l.children.filter isNode

def firstChild? (l : Located) : Option Located := l.children.find? isNode

/-- The next node after this one under the same parent. -/
def nextSibling? : Located → Option Located
  | root _ => none
  | child p i o t =>
    (placeAll p (i + 1) (o + t.size) (p.tree.children.drop (i + 1))).find? isNode

/-! ### Tokens -/

mutual

/-- The places of the tokens below `l`, which holds the given tree. -/
def leavesOf (l : Located) : Tree → List Located
  | .leaf _ => [l]
  | .node _ cs => leavesOfAll l 0 l.offset cs

def leavesOfAll (l : Located) (index offset : Nat) : List Tree → List Located
  | [] => []
  | c :: cs =>
    leavesOf (child l index offset c) c ++ leavesOfAll l (index + 1) (offset + c.size) cs

end

/-- All tokens from here down, in order. -/
def leaves (l : Located) : List Located := leavesOf l l.tree

mutual

def firstLeafOf? (l : Located) : Tree → Option Located
  | .leaf _ => some l
  | .node _ cs => firstLeafOfAll? l 0 l.offset cs

def firstLeafOfAll? (l : Located) (index offset : Nat) : List Tree → Option Located
  | [] => none
  | c :: cs =>
    match firstLeafOf? (child l index offset c) c with
    | some found => some found
    | none => firstLeafOfAll? l (index + 1) (offset + c.size) cs

end

/-- The first token from here down; nodes without tokens are passed over. -/
def firstLeaf? (l : Located) : Option Located := firstLeafOf? l l.tree

mutual

def lastLeafOf? (l : Located) : Tree → Option Located
  | .leaf _ => some l
  | .node _ cs => lastLeafOfAll? l 0 l.offset cs

def lastLeafOfAll? (l : Located) (index offset : Nat) : List Tree → Option Located
  | [] => none
  | c :: cs =>
    match lastLeafOfAll? l (index + 1) (offset + c.size) cs with
    | some found => some found
    | none => lastLeafOf? (child l index offset c) c

end

/-- The last token from here down. -/
def lastLeaf? (l : Located) : Option Located := lastLeafOf? l l.tree

/-- The range of a token without its trivia. -/
def ownRange (l : Located) : Range :=
  match l.tree with
  | .leaf t => t.range l.offset
  | .node .. => l.range

/-- The pieces of trivia in front of a token's own text, each with its range. -/
def leadingTrivia (l : Located) : List (TriviaKind × Range) :=
  match l.tree with
  | .leaf t => t.leading.ranges l.offset
  | .node .. => []

/-- The pieces of trivia behind a token's own text, each with its range. -/
def trailingTrivia (l : Located) : List (TriviaKind × Range) :=
  match l.tree with
  | .leaf t => t.trailing.ranges l.ownRange.stop
  | .node .. => []

/-- The range from the first token's own text to the last one's. -/
def trimmedRange (l : Located) : Range :=
  match l.firstLeaf?, l.lastLeaf? with
  | some first, some last =>
    let start := first.ownRange.start
    ⟨start, max start last.ownRange.stop⟩
  | _, _ => .empty l.offset

def trimmedText? (l : Located) : Option Text :=
  let r := l.trimmedRange
  Text.slice? l.tree.text ⟨r.start - l.offset, r.stop - l.offset⟩

/-! ### Everything -/

mutual

def elementsOf (l : Located) : Tree → List Located
  | .leaf _ => [l]
  | .node _ cs => l :: elementsOfAll l 0 l.offset cs

def elementsOfAll (l : Located) (index offset : Nat) : List Tree → List Located
  | [] => []
  | c :: cs =>
    elementsOf (child l index offset c) c ++ elementsOfAll l (index + 1) (offset + c.size) cs

end

/-- Every place from here down, nodes before their children. -/
def elements (l : Located) : List Located := elementsOf l l.tree

/-- All nodes from here down, parents first. -/
def nodes (l : Located) : List Located := l.elements.filter isNode

/-- Goes down from here by positions among the child nodes. -/
def descend? (l : Located) : List Nat → Option Located
  | [] => some l
  | i :: is => do (← l.childNodes[i]?).descend? is

/-! ### Text -/

/-- The kind and the range, the way a tree is shown. -/
def label (l : Located) : String :=
  let r := if l.isNode then l.range else l.ownRange
  s!"{l.kind.label}@{r.start}..{r.stop}"

end Located

end DialogueScript
