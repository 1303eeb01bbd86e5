import DialogueScript.Tree.Basic

/-!
Building a tree over a given text. Nodes are started and finished in a balanced way, and each token
is cut out of the text at the current position by the sizes of its parts. What is finished stands in
one row, and an open node knows only where in the row its children begin.
-/

namespace DialogueScript

inductive BuildError where
  /-- A node is finished and none is open. -/
  | unbalanced
  /-- A token reaches past the end of the text, or is cut inside a character. -/
  | outsideText
  /-- Nodes are left open. -/
  | unclosed
  /-- There is not exactly one root. -/
  | rootCount
  /-- The root is a token. -/
  | rootIsToken
deriving DecidableEq, Repr

/-- The text of an error, for those that have one. -/
def BuildError.message? : BuildError → Option String
  | .unbalanced => some "unbalanced `finish_node`"
  | .unclosed => some "unclosed nodes left in the builder"
  | .rootIsToken => some "the root must be a node"
  | .outsideText | .rootCount => none

/-- What a builder is asked for. -/
inductive BuildOp where
  | start (kind : Kind)
  /-- The size is that of the token's own text. -/
  | token (leading : TriviaSizes) (kind : Kind) (size : Nat) (trailing : TriviaSizes)
  | finish
deriving DecidableEq, Repr

structure Builder where
  text : Text
  offset : Nat
  /-- The open nodes, innermost first: the kind of each, and how many of the children stand in front
  of its own. -/
  parents : List (Kind × Nat) := []
  /-- All trees that are not yet in a finished node, in order. -/
  children : List Tree := []
deriving DecidableEq, Repr

namespace Builder

def startNode (b : Builder) (k : Kind) : Builder :=
  { b with parents := (k, b.children.length) :: b.parents }

def token (b : Builder) (leading : TriviaSizes) (kind : Kind) (size : Nat)
    (trailing : TriviaSizes) : Except BuildError Builder :=
  let total := leading.total + size + trailing.total
  match Text.slice? b.text (.ofSize b.offset total) with
  | none => .error .outsideText
  | some fullText =>
    .ok { b with offset := b.offset + total
                 children := b.children ++ [.leaf { leading, kind, fullText, trailing }] }

def finishNode (b : Builder) : Except BuildError Builder :=
  match b.parents with
  | [] => .error .unbalanced
  | (k, first) :: parents =>
    .ok { b with parents, children := b.children.take first ++ [.node k (b.children.drop first)] }

/-- The tree that has been built. -/
def finish (b : Builder) : Except BuildError Tree :=
  match b.parents, b.children with
  | _ :: _, _ => .error .unclosed
  | [], [.node k cs] => .ok (.node k cs)
  | [], [.leaf _] => .error .rootIsToken
  | [], _ => .error .rootCount

def apply (b : Builder) : BuildOp → Except BuildError Builder
  | .start k => .ok (b.startNode k)
  | .token leading kind size trailing => b.token leading kind size trailing
  | .finish => b.finishNode

/-- Does what is asked for in order, up to the first error. -/
def run (b : Builder) : List BuildOp → Except BuildError Builder
  | [] => .ok b
  | op :: ops => do (← b.apply op).run ops

/-- The tree over the part of a text behind `start`. -/
def build (text : Text) (start : Nat) (ops : List BuildOp) : Except BuildError Tree := do
  (← run { text, offset := start } ops).finish

end Builder

end DialogueScript
