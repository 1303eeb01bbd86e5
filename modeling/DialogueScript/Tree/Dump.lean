import DialogueScript.Text.Quoted
import DialogueScript.Tree.Located

/-!
A tree as text: one line for each node and token, indented by its depth.
-/

namespace DialogueScript

/-- The line of a node or token. A token also shows its own text. -/
def Located.dumpLine (l : Located) : String :=
  let shown := match l.tree with
    | .leaf t => " " ++ String.ofList (Text.quoted t.text)
    | .node .. => ""
  String.ofList (List.replicate (2 * l.depth) ' ') ++ l.label ++ shown ++ "\n"

def Tree.dump (t : Tree) : String := String.join ((Located.root t).elements.map Located.dumpLine)

end DialogueScript
