import DialogueScript.Grammar.Script
import DialogueScript.Tree.Located

/-!
Parsing a script. The result is a tree that holds the whole text, the problems that were found, and
what is needed to read a single node again after an edit.
-/

namespace DialogueScript

structure Parse where
  tree : Tree
  diagnostics : List Diagnostic
  checkpoints : List Checkpoint
  config : Config
deriving DecidableEq, Repr

namespace Parse

/-- The state in front of a text. The root is open already. -/
def begun (config : Config) (t : Text) (cancelAt : Option Nat) : ParserState :=
  { scanner := .start config t, record := Record.start {}, cancelAt }

/-- The state of the parser after the whole text. -/
def finalState (config : Config) (t : Text) (cancelAt : Option Nat) : ParserState :=
  (Parser.script.run (begun config t cancelAt)).2

/-- What was done to build the tree, from the start of the root to its end. -/
def operations (config : Config) (t : Text) (cancelAt : Option Nat) : List MarkOp :=
  ((finalState config t cancelAt).record.complete .sourceFile).operations

/-- The result in a final state. The tree of a parse that was cancelled cannot be used again, so no
checkpoints are kept for it. -/
def ofState (config : Config) (t : Text) (s : ParserState) : Parse where
  tree := .node .sourceFile s.forest.trees
  diagnostics := (Diagnostic.locateAll? t s.diagnostics).getD s.diagnostics
  checkpoints := if s.cancelled then [] else s.checkpoints
  config

/-- Parses a text, stopping early at the poll number `cancelAt` if one is given. -/
def withCancel (config : Config) (t : Text) (cancelAt : Option Nat) : Parse :=
  ofState config t (finalState config t cancelAt)

/-- How often a parse asks whether to stop. -/
def pollsOf (config : Config) (t : Text) (cancelAt : Option Nat) : Nat :=
  (finalState config t cancelAt).polls

def ofText (config : Config) (t : Text) : Parse := withCancel config t none

/-- The root of the tree as a place. -/
def root (p : Parse) : Located := .root p.tree

end Parse

end DialogueScript
