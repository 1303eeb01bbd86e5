import DialogueScript.Tree.Basic

/-!
A tree while it is being built: the trees that are finished so far, and the nodes around them that
are still open. The kind of a node is given when it is closed, and a node can be put around a tree
that is already finished.
-/

namespace DialogueScript

structure Forest where
  /-- The finished children of the innermost open node, newest first. -/
  inner : List Tree := []
  /-- Those of the open nodes around it. -/
  outer : List (List Tree) := []
deriving DecidableEq, Repr, Inhabited

namespace Forest

/-- The finished trees at this level, in order. -/
def trees (f : Forest) : List Tree := f.inner.reverse

def add (f : Forest) (t : Tree) : Forest := { f with inner := t :: f.inner }

/-- Opens a node. -/
def start (f : Forest) : Forest := ⟨[], f.inner :: f.outer⟩

/-- Closes the innermost open node; its kind is known only now. -/
def complete (f : Forest) (k : Kind) : Forest :=
  match f.outer with
  | [] => f
  | level :: outer => ⟨.node k f.trees :: level, outer⟩

/-- Gives up the innermost open node and leaves its children to the one around it. -/
def abandon (f : Forest) : Forest :=
  match f.outer with
  | [] => f
  | level :: outer => ⟨f.inner ++ level, outer⟩

/-- Opens a node around the newest finished tree. -/
def precede (f : Forest) : Forest :=
  match f.inner with
  | [] => f.start
  | newest :: level => ⟨[newest], level :: f.outer⟩

end Forest

end DialogueScript
