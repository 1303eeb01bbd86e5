import DialogueScript.Proofs.Ast
import DialogueScript.Proofs.Expression.Reading
import DialogueScript.Proofs.Grammar.NodeCourse

/-!
What the tree of a script that is in order stands for.
-/

namespace DialogueScript

open DialogueScript.Parser

namespace Stmt

/-- A line with one part. -/
lemma ofTree?_line {V : List Tree → Prop} {t : Tree} {parts : List Part} (h : LineTree V t)
    (hV : ∀ us, V us → linePartsAmong us = parts) :
    ofTree? t = some (.line ⟨some parts, none, []⟩) := by
  obtain ⟨us, hus, token, -, rfl⟩ := h
  rw [ofTree?]
  simp [Line.ofChildren, nodeAmong?, hashtagsAmong, hV us hus]

end Stmt

/-- A node with a title only and the statements of its body. -/
def DialogueNode.plain (title : Text) (statements : List Stmt) : DialogueNode :=
  ⟨some title, [.title (some title)], some ⟨true, statements⟩⟩

namespace Parse

/-- The node that a tree stands for, if it stands for one. -/
lemma node_readBack {title : Text} {statements : List Stmt} {t : Tree}
    (h : NodeTree title (Stmt.ofAll · = statements) t) :
    ∃ cs, t = .node .dialogueNode cs ∧ DialogueNode.ofChildren cs = .plain title statements := by
  obtain ⟨us, vs, rfl, htitle, t1, t2, t3, t4, k3, rfl⟩ := h
  refine ⟨_, rfl, ?_⟩
  simp [DialogueNode.ofChildren, DialogueNode.plain, nodeAmong?, htitle, Header.ofTree?, k3,
    Stmt.ofAll_cons]

variable {α : Type} {titleOf bodyOf : α → Text} {statementsOf : α → List Stmt}

lemma nodes_readBack {nodes : List α} {ts : List Tree}
    (h : List.Forall₂ (fun n => NodeTree (titleOf n) (Stmt.ofAll · = statementsOf n)) nodes ts) :
    (nodesAmong .dialogueNode ts).map DialogueNode.ofChildren =
        (nodes.map fun n => .plain (titleOf n) (statementsOf n)) ∧
          nodesAmong .fileHashtag ts = [] := by
  induction h with
  | nil => simp
  | cons ht _ ih =>
    obtain ⟨cs, rfl, hcs⟩ := node_readBack ht
    simp [ih, hcs]

/-- **Nodes whose bodies can be read are read back as a script**, and nothing is reported. -/
lemma readBack (config : Config) (htitle : ∀ n, Title (titleOf n))
    (hbody : ∀ n, ReadsBody (bodyOf n) (Stmt.ofAll · = statementsOf n)) {nodes : List α}
    (hne : nodes ≠ []) : (ofText config (nodesText titleOf bodyOf nodes)).diagnostics = [] ∧
      Script.ofTree (ofText config (nodesText titleOf bodyOf nodes)).tree =
        ⟨[], nodes.map fun n => .plain (titleOf n) (statementsOf n)⟩ := by
  obtain ⟨h1, ts, token, hts, h2⟩ := ofText_nodes config htitle hbody hne
  obtain ⟨h3, h4⟩ := nodes_readBack hts
  rw [List.filter_true] at h1
  refine ⟨?_, ?_⟩
  · rw [ofText, withCancel, ofState]
    simp [h1, Diagnostic.locateAll?]
  · rw [h2]
    simp [Script.ofTree, Tree.children, hashtagsAmong, h3, h4]

end Parse

end DialogueScript
