import DialogueScript.Parse.Basic

/-!
Parsing again after an edit. If the edit lies inside one node, and that node, read again from its
checkpoint, ends where the next child starts with the same blocks open, then everything after it
would be read as before, and only the one node is exchanged. In all other cases the whole text is
parsed.
-/

namespace DialogueScript

/-- A replacement of the bytes in `delete` by `insertSize` new ones. -/
structure Edit where
  delete : Range
  insertSize : Nat
deriving DecidableEq, Repr

namespace Edit

def replace (delete : Range) (insert : Text) : Edit := ⟨delete, Text.size insert⟩

/-- The change in the length of the text. -/
def delta (e : Edit) : Int := e.insertSize - e.delete.size

/-- A position behind the edit, after the edit. -/
def move (e : Edit) (position : Nat) : Nat := (position + e.delta).toNat

end Edit

namespace Parse

/-- The first node that an edit lies strictly inside of: its index and its range. The trees are the
children from `index` on, of which the first starts at `offset`. -/
def editedNode? (e : Edit) (index offset : Nat) : List Tree → Option (Nat × Range)
  | [] => none
  | c :: cs =>
    let range := Range.ofSize offset c.size
    if c.kind = .dialogueNode && range.start < e.delete.start && e.delete.stop < range.stop then
      some (index, range)
    else editedNode? e (index + 1) range.stop cs

/-- The parse with the child `index` exchanged for `node`, which was read with the given
diagnostics. It fails if a diagnostic is no longer a place in the text. -/
def exchange? (old : Parse) (e : Edit) (t : Text) (index : Nat) (here next : Checkpoint)
    (node : Tree) (found : List Diagnostic) : Option Parse := do
  let later ← (old.diagnostics.drop next.diagnostics).mapM (·.shift? e.delta)
  let diagnostics ←
    Diagnostic.locateAll? t (old.diagnostics.take here.diagnostics ++ found ++ later)
  let removed := next.diagnostics - here.diagnostics
  let moved := (old.checkpoints.drop (index + 1)).map fun c =>
    { c with offset := e.move c.offset, diagnostics := c.diagnostics - removed + found.length }
  return { tree := ← old.tree.replaceChild? index node
           diagnostics
           checkpoints := old.checkpoints.take (index + 1) ++ moved
           config := old.config }

/-- How a text was parsed after an edit. -/
structure Reparsed where
  parse : Parse
  /-- The child of the root that was exchanged, if not everything was parsed. -/
  exchanged : Option Nat
deriving DecidableEq, Repr

/-- For each node below the root, whether it was taken over from before the edit. -/
def Reparsed.takenOver (r : Reparsed) : List Bool :=
  match r.exchanged with
  | some index => r.parse.tree.takenOver index
  | none => (r.parse.tree.children.filter (·.isNode)).map fun _ => false

/-- Reads the child `index` again, which covered `range` before the edit. The answer is `none` if
the whole text has to be parsed, and `some none` if a position is not one of the new text. -/
def reparseChild (old : Parse) (e : Edit) (t : Text) (index : Nat) (range : Range) :
    Option (Option Reparsed) := do
  let here ← old.checkpoints[index]?
  let next ← old.checkpoints[index + 1]?
  match Scanner.resume? old.config t here.offset here.stack with
  | none => return none
  | some scanner =>
    let (found, s) := Parser.item.run { scanner }
    match found, s.forest.trees with
    | true, [.node .dialogueNode cs] =>
      if s.scanner.offset = e.move range.stop && s.scanner.stack = next.stack then
        return (exchange? old e t index here next (.node .dialogueNode cs) s.diagnostics).map
          fun parse => ⟨parse, some index⟩
      else none
    | _, _ => none

/-- Parses the text `t` that `e` has turned the old text into. The answer is `none` only if a
position of the old parse is not one of the new text. -/
def reparse? (old : Parse) (e : Edit) (t : Text) : Option Reparsed :=
  let whole : Reparsed := ⟨ofText old.config t, none⟩
  if (old.tree.size : Int) + e.delta = Text.size t then
    match editedNode? e 0 0 old.tree.children with
    | some (index, range) => (reparseChild old e t index range).getD (some whole)
    | none => some whole
  else some whole

end Parse

end DialogueScript
