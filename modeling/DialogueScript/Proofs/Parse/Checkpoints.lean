import DialogueScript.Proofs.Grammar.Shape
import DialogueScript.Proofs.Parse.Children
import DialogueScript.Proofs.Scanner.Resume

/-!
Checkpoints are faithful: a scanner that goes on at the checkpoint in front of a node, with the
blocks that were written there, reads the same node, ends at the next checkpoint and finds the same
problems.
-/

namespace DialogueScript

open DialogueScript.Parser ParserState

/-! ### The open blocks can be written -/

/-- No rule opens a block that is too wide. -/
lemma Reads.narrow {s₀ s : ParserState} (h : Reads s₀ s) (hg : s₀.Good)
    (hn : s₀.scanner.stack.Narrow) : s.scanner.stack.Narrow := by
  induction h with
  | refl => exact hn
  | look mode _ ih =>
    rw [ParserState.look, Scanner.looking, Scanner.settle_stack]
    exact ih hg hn
  | @take s₀ s mode hr _ ih =>
    have hgood := (hr.follows hg).good
    exact Scanner.narrow_after hgood.scanner.toSane (ih hg hn) mode
  | @report s₀ s₁ s mode e m hr hr' ih ih' =>
    rw [scanner_report]
    exact ih' (hr.follows hg).good (ih hg hn)
  | @poll s₀ s hr ih =>
    rcases poll_cases s with ⟨-, h1⟩ | ⟨-, -, h1⟩ | ⟨-, -, h1⟩ <;> rw [h1] <;> exact ih hg hn
  | @node s₀ s s' k hr hr' ih ih'
  | @abandon s₀ s s' hr hr' ih ih'
  | @around s₀ s s' k hr hr' ih ih' =>
    have hgood := (hr.follows hg).good
    exact ih' ⟨hgood.scanner, hgood.silent⟩ (ih hg hn)

lemma Parser.Siblings.narrow {s u : ParserState} {trees : List Tree} (h : Siblings s trees u)
    (hs : s.Ready) (hn : s.scanner.stack.Narrow) : u.scanner.stack.Narrow := by
  induction h with
  | nil => exact hn
  | @cons s u tree trees hk htree _ ih =>
    have hreads : Reads s.mark s.next :=
      (Reads.look .header (.refl s.mark)).trans (reading_child _ (hs.good.mark.look .header))
    exact ih (hs.next hk) (hreads.narrow hs.good.mark hn)

namespace Parse

/-- Going on at one checkpoint reads a tree and comes to the next one, with the diagnostics between
the two. -/
def Resumes (config : Config) (t : Text) (here : Checkpoint) (tree : Tree) (next : Checkpoint)
    (diagnostics : List Diagnostic) : Prop :=
  ∃ stack scanner, IndentStack.decode here.stack.encode = .ok stack ∧
    Scanner.resume? config t here.offset stack = some scanner ∧
    (item.run { scanner }).1 = true ∧
    (item.run { scanner }).2.forest.trees = [tree] ∧
    (item.run { scanner }).2.scanner.offset = next.offset ∧
    (item.run { scanner }).2.scanner.stack.encode = next.stack.encode ∧
    (item.run { scanner }).2.diagnostics =
      (diagnostics.take next.diagnostics).drop here.diagnostics

/-- Behind some children of a text, a node can be read again. -/
lemma resumes_node {config : Config} {t : Text} {trees : List Tree} {s : ParserState}
    (h : Siblings (initial config t) trees s) {tree : Tree}
    (htree : s.next.forest.inner = tree :: s.forest.inner) (hnode : tree.isNodeItem = true)
    {diagnostics : List Diagnostic} (hd : s.next.diagnostics <+: diagnostics) :
    Resumes config t s.point tree s.next.point diagnostics := by
  have hpast := h.past (ready_initial config t)
  have hs := hpast.ready
  have hk : nodeFirst.contains (s.kindAt .header) = true := by
    rw [← hs.isNodeItem_next htree, hnode]
  obtain ⟨htext, hoff⟩ := standing h
  have hdecode := IndentStack.decode_encode hs.good.scanner.rising
    (h.narrow (ready_initial config t) IndentStack.narrow_empty)
  have hconfig : s.scanner.config = config := hpast.config
  have hresume : Scanner.resume? config t s.scanner.offset s.scanner.stack =
      some s.scanner.renewed := by
    rw [Scanner.resume?, htext, hoff, Text.cut?_append, Scanner.renewed, hconfig, hoff]
    rfl
  obtain ⟨hanswer, hread⟩ := item_renewed hs (.inr hk) (r := { scanner := s.scanner.renewed }) rfl
  obtain ⟨tree', h1, h2, h3, h4, h5⟩ := hread hk
  obtain ⟨rfl, -⟩ := List.cons.inj (htree.symm.trans h2)
  refine ⟨s.scanner.stack, s.scanner.renewed, hdecode, hresume, hanswer.trans hk, h1, h3,
    congrArg IndentStack.encode h4, ?_⟩
  have htake : diagnostics.take s.next.diagnostics.length = s.next.diagnostics :=
    (List.prefix_iff_eq_take.1 hd).symm
  change (item.after { scanner := s.scanner.renewed }).diagnostics =
    (diagnostics.take s.next.diagnostics.length).drop s.diagnostics.length
  rw [htake, h5]
  exact (List.drop_left ..).symm

/-- The children of the root before a given one end in a state, where the checkpoint is made. -/
lemma checkpoint_between {config : Config} {t : Text} {trees : List Tree} {u : ParserState}
    (h : Siblings (initial config t) trees u) {i : Nat} (hi : i ≤ trees.length) : ∃ s,
      Siblings (initial config t) (trees.take i) s ∧ Siblings s (trees.drop i) u ∧
      (u.checkpoints ++ [u.point])[i]? = some s.point ∧
      s.point.offset = Tree.sizeAll (trees.take i) := by
  rw [← List.take_append_drop i trees] at h
  obtain ⟨s, h1, h2⟩ := h.split
  have hpoint := checkpoint_at h1 h2
  rw [List.length_take, min_eq_left hi] at hpoint
  exact ⟨s, h1, h2, hpoint, (standing h1).2.trans (Tree.sizeAll_eq _).symm⟩

/-- **Checkpoints are faithful**: there is one for each child of the root, at its start. From the
one in front of a node, the same node is read again, up to the next one. -/
theorem checkpoints_faithful (config : Config) (t : Text) :
    (ofText config t).checkpoints.length = (ofText config t).tree.children.length ∧
    ∀ i here tree, (ofText config t).checkpoints[i]? = some here →
      (ofText config t).tree.children[i]? = some tree →
      here.offset = Tree.sizeAll ((ofText config t).tree.children.take i) ∧
      (tree.isNodeItem = true → ∃ next, (ofText config t).checkpoints[i + 1]? = some next ∧
        Resumes config t here tree next (finalState config t none).diagnostics) := by
  obtain ⟨trees, u, extra, h1, h2, -, -, -, hparse⟩ := ofText_eq config t
  obtain ⟨trees', u', extra', h1', h2', -, -, -, hfinal⟩ := finalState_eq config t
  obtain ⟨rfl, rfl⟩ := h1.unique h1' h2 h2'
  have hready := ready_initial config t
  have hpast := h1.past hready
  have hdiagnostics : u.diagnostics <+: (finalState config t none).diagnostics := by
    rw [hfinal, diagnostics_finished hpast.ready.good h2]
    exact List.prefix_append _ _
  rw [hparse]
  change (u.checkpoints ++ [u.point]).length = (trees ++ [Tree.leaf _]).length ∧ ∀ i here tree,
    (u.checkpoints ++ [u.point])[i]? = some here → (trees ++ [Tree.leaf _])[i]? = some tree → _
  refine ⟨?_, ?_⟩
  · obtain ⟨ps, hlen, hps, -⟩ := hpast.checkpoints
    have hnil : (initial config t).checkpoints = [] := rfl
    simp [hps, hnil, hlen]
  · intro i here tree hhere htree
    have hi : i ≤ trees.length := by
      have := (List.getElem?_eq_some_iff.1 htree).1
      simp only [List.length_append, List.length_singleton] at this
      omega
    obtain ⟨s, hs, hrest, hpoint, hoff⟩ := checkpoint_between h1 hi
    obtain rfl := Option.some.inj (hhere.symm.trans hpoint)
    change s.point.offset = Tree.sizeAll ((trees ++ [Tree.leaf _]).take i) ∧ _
    rw [List.take_append_of_le_length hi]
    refine ⟨hoff, fun hnode => ?_⟩
    -- the end of the text is no node, so the child stands before it
    have hlt : i < trees.length := by
      refine lt_of_le_of_ne hi fun heq => ?_
      rw [heq, List.getElem?_concat_length] at htree
      rw [← Option.some.inj htree] at hnode
      simp [Tree.isNodeItem, Tree.hasHeader, Tree.hasBody, Tree.children] at hnode
    rw [List.getElem?_append_left hlt] at htree
    rw [List.drop_eq_getElem_cons hlt] at hrest
    obtain _ | ⟨hk, hinner, hrest⟩ := hrest
    have hsready := (hs.past hready).ready
    have htree : trees[i] = tree := by simpa [hlt] using htree
    rw [htree] at hinner
    have hnext := checkpoint_at (hs.append (.cons hk hinner (.nil _))) hrest
    rw [List.length_append, List.length_take, min_eq_left hi] at hnext
    exact ⟨s.next.point, hnext, resumes_node hs hinner hnode
      ((hrest.past (hsready.next hk)).diagnostics.trans hdiagnostics)⟩

end Parse

end DialogueScript
