import DialogueScript.Proofs.Text.Position
import DialogueScript.Proofs.Tree.Clean
import DialogueScript.Proofs.Tree.Preorder
import Mathlib.Logic.Relation

/-!
Where the places of a tree are. A place is reached from the root in many ways, each of which counts
its offset anew; they all come to the sizes of the trees in front of it. The tokens at the ends of a
place are searched for without listing its tokens, and nodes without tokens are passed over.
-/

namespace DialogueScript

namespace TriviaSizes

open Range

lemma tiles_ranges (ps : TriviaSizes) (position : Nat) :
    Tiles ⟨position, position + ps.total⟩ ((ps.ranges position).map (·.2)) := by
  induction ps generalizing position with
  | nil => exact rfl
  | cons p ps ih =>
    have hrest := ih (position + p.2)
    simp only [total, ranges, List.map_cons]
    refine ⟨rfl, Nat.le_add_right .., ?_⟩
    rw [← Nat.add_assoc]
    exact hrest

lemma sizes_ranges (ps : TriviaSizes) (position : Nat) :
    (ps.ranges position).map (fun p => (p.1, p.2.size)) = ps := by
  induction ps generalizing position with
  | nil => rfl
  | cons p ps ih =>
    rw [ranges, List.map_cons, ih]
    simp [Range.size, ofSize]

end TriviaSizes

namespace Tree

/-- No token has more trivia than text. -/
def TriviaFits (t : Tree) : Prop :=
  ∀ k ∈ t.tokens, k.leading.total + k.trailing.total ≤ k.size

lemma mem_tokens_of_mem_subtrees {k : Token} : (t : Tree) → leaf k ∈ t.subtrees → k ∈ t.tokens
  | leaf j, h => by
    obtain rfl : k = j := by simpa [subtrees] using h
    simp
  | node j cs, h => by
    rcases mem_subtrees_node.1 h with h | ⟨c, hc, h⟩
    · simp at h
    · rw [tokens_node, List.mem_flatMap]
      exact ⟨c, hc, mem_tokens_of_mem_subtrees c h⟩

lemma textAll_eq (cs : List Tree) : textAll cs = cs.flatMap text := by
  induction cs with
  | nil => simp
  | cons c cs ih => simp [ih]

lemma sizeAll_cons (c : Tree) (cs : List Tree) : sizeAll (c :: cs) = c.size + sizeAll cs := by
  rw [sizeAll]

/-- The children are all there is in a node. -/
lemma textAll_children {t : Tree} (h : t.isNode) : textAll t.children = t.text := by
  cases t with
  | leaf k => simp [isNode] at h
  | node k cs => simp [children]

/-- The text of trees in a row, with one of them singled out. -/
lemma textAll_split {cs : List Tree} {c : Tree} {i : Nat} (h : cs[i]? = some c) :
    textAll cs = textAll (cs.take i) ++ c.text ++ textAll (cs.drop (i + 1)) := by
  obtain ⟨hlt, rfl⟩ := List.getElem?_eq_some_iff.mp h
  have hcs : cs = cs.take i ++ cs[i] :: cs.drop (i + 1) := by
    rw [← List.drop_eq_getElem_cons hlt, List.take_append_drop]
  calc textAll cs = textAll (cs.take i ++ cs[i] :: cs.drop (i + 1)) := congrArg textAll hcs
    _ = textAll (cs.take i) ++ cs[i].text ++ textAll (cs.drop (i + 1)) := by
      rw [textAll_append, textAll_cons, List.append_assoc]

lemma isNode_of_child {t c : Tree} {i : Nat} (h : t.children[i]? = some c) : t.isNode := by
  cases t with
  | leaf k => simp [children] at h
  | node k cs => rfl

end Tree

namespace Located

/-! ### Going through a tree -/

/-- What can be asked of a place and is answered with places. -/
inductive Leads (l : Located) : Located → Prop where
  | child {m : Located} (h : m ∈ l.children) : Leads l m
  | parent {m : Located} (h : l.parent? = some m) : Leads l m
  | nextSibling {m : Located} (h : l.nextSibling? = some m) : Leads l m
  | firstLeaf {m : Located} (h : l.firstLeaf? = some m) : Leads l m
  | lastLeaf {m : Located} (h : l.lastLeaf? = some m) : Leads l m
  | leaf {m : Located} (h : m ∈ l.leaves) : Leads l m
  | element {m : Located} (h : m ∈ l.elements) : Leads l m

/-- A place that is reached from another in any number of steps. -/
abbrev Reaches : Located → Located → Prop := Relation.ReflTransGen Leads

/-- What the places of a tree are: each place on the way up is a child of the one above it. -/
def Within (t : Tree) : Located → Prop
  | root u => u = t
  | child p i o c => p.Within t ∧ child p i o c ∈ p.children

/-- **Positions are exact** at a place in the tree `t`. -/
structure Exact (t : Tree) (l : Located) : Prop where
  /-- The range cuts the place's own text out of the whole. -/
  text : Text.slice? t.text l.range = some l.tree.text
  children : l.isNode → l.range.Tiles (l.children.map range)
  parent : l.parent? = none → l = root t
  /-- The index is the position among the parent's children, in the tree and among the places. -/
  index : ∀ p, l.parent? = some p →
    p.tree.children[l.index]? = some l.tree ∧ p.children[l.index]? = some l
  /-- The next sibling is the first node behind it, also if nothing is in that node. -/
  nextSibling : ∀ p, l.parent? = some p →
    l.nextSibling? = (p.children.drop (l.index + 1)).find? isNode
  /-- The tokens from here down are the elements from here down that are no nodes. -/
  leaves : l.leaves = l.elements.filter (!·.isNode)
  firstLeaf : l.firstLeaf? = l.leaves.head?
  lastLeaf : l.lastLeaf? = l.leaves.getLast?
  leavesText : l.leaves.flatMap (·.tree.text) = l.tree.text
  /-- Around the own text of a token its trivia lie piece by piece and leave nothing out. -/
  trivia : ∀ k, l.tree = .leaf k →
    Range.Tiles ⟨l.range.start, l.ownRange.start⟩ (l.leadingTrivia.map (·.2)) ∧
    l.leadingTrivia.map (fun p => (p.1, p.2.size)) = k.leading ∧
    l.ownRange.start ≤ l.ownRange.stop ∧
    Range.Tiles ⟨l.ownRange.stop, l.range.stop⟩ (l.trailingTrivia.map (·.2)) ∧
    l.trailingTrivia.map (fun p => (p.1, p.2.size)) = k.trailing
  trimmedInside : l.range.start ≤ l.trimmedRange.start ∧
    l.trimmedRange.start ≤ l.trimmedRange.stop ∧ l.trimmedRange.stop ≤ l.range.stop
  trimmedRange : ∀ first last, l.leaves.head? = some first → l.leaves.getLast? = some last →
    l.trimmedRange = ⟨first.ownRange.start, last.ownRange.stop⟩
  trimmedEmpty : l.leaves = [] → l.trimmedRange = .empty l.offset

/-! ### Children in a row -/

variable {p l : Located} {i o : Nat} {t : Tree}

lemma getElem?_placeAll (cs : List Tree) (n : Nat) :
    (placeAll p i o cs)[n]? = cs[n]?.map (child p (i + n) (o + Tree.sizeAll (cs.take n))) := by
  induction cs generalizing i o n with
  | nil => simp
  | cons c cs ih =>
    cases n with
    | zero => simp [Tree.sizeAll]
    | succ n =>
      rw [placeAll_cons, List.getElem?_cons_succ, List.getElem?_cons_succ, ih, List.take_succ_cons,
        Tree.sizeAll_cons]
      congr 2 <;> omega

lemma drop_placeAll (cs : List Tree) (n : Nat) :
    (placeAll p i o cs).drop n = placeAll p (i + n) (o + Tree.sizeAll (cs.take n)) (cs.drop n) := by
  induction cs generalizing i o n with
  | nil => simp
  | cons c cs ih =>
    cases n with
    | zero => simp [Tree.sizeAll]
    | succ n =>
      rw [placeAll_cons, List.drop_succ_cons, ih, List.take_succ_cons, List.drop_succ_cons,
        Tree.sizeAll_cons]
      congr 1 <;> omega

lemma map_tree_placeAll (cs : List Tree) : (placeAll p i o cs).map tree = cs := by
  induction cs generalizing i o with
  | nil => rfl
  | cons c cs ih => rw [placeAll_cons, List.map_cons, ih, tree_child]

lemma tiles_placeAll (cs : List Tree) :
    Range.Tiles ⟨o, o + Tree.sizeAll cs⟩ ((placeAll p i o cs).map range) := by
  induction cs generalizing i o with
  | nil => exact rfl
  | cons c cs ih =>
    have hrest := @ih (i + 1) (o + c.size)
    rw [placeAll_cons, List.map_cons, Tree.sizeAll_cons, ← Nat.add_assoc]
    exact ⟨rfl, Nat.le_add_right .., hrest⟩

lemma getElem?_children (n : Nat) : l.children[n]? =
    l.tree.children[n]?.map (child l n (l.offset + Tree.sizeAll (l.tree.children.take n))) := by
  rw [children, getElem?_placeAll, Nat.zero_add]

/-- A child is where its index says, behind the children before it. -/
lemma child_mem_children : child p i o t ∈ p.children ↔
    p.tree.children[i]? = some t ∧ o = p.offset + Tree.sizeAll (p.tree.children.take i) := by
  rw [List.mem_iff_getElem?]
  constructor
  · rintro ⟨n, hn⟩
    rw [getElem?_children, Option.map_eq_some_iff] at hn
    obtain ⟨u, hu, heq⟩ := hn
    injection heq with _ hi ho ht
    subst hi ho ht
    exact ⟨hu, rfl⟩
  · rintro ⟨ht, ho⟩
    exact ⟨i, by rw [getElem?_children, ht, ho]; rfl⟩

/-- The nodes behind a child are found from its own end. -/
lemma nextSibling?_eq (h : child p i o t ∈ p.children) :
    (child p i o t).nextSibling? = (p.children.drop (i + 1)).find? isNode := by
  obtain ⟨ht, ho⟩ := child_mem_children.mp h
  have hsize : o + t.size = p.offset + Tree.sizeAll (p.tree.children.take (i + 1)) := by
    rw [List.take_add_one, ht, Tree.sizeAll_eq, Tree.textAll_append, Text.size_append,
      ← Tree.sizeAll_eq, ← Tree.sizeAll_eq, ho]
    simp [Tree.sizeAll, Nat.add_assoc]
  rw [nextSibling?, hsize, children, drop_placeAll, Nat.zero_add]

/-! ### Down from a place -/

/-- What holds of a place if it holds of its children holds of every place. -/
lemma down_induction {motive : Located → Prop} (h : ∀ l, (∀ c ∈ l.children, motive c) → motive l)
    (l : Located) : motive l :=
  h l fun c (_ : c ∈ l.children) => down_induction h c
termination_by sizeOf l.tree
decreasing_by exact (of_mem_children ‹_›).1

lemma leavesOfAll_eq (cs : List Tree) :
    leavesOfAll p i o cs = (placeAll p i o cs).flatMap leaves := by
  induction cs generalizing i o with
  | nil => rw [leavesOfAll]; rfl
  | cons c cs ih => rw [leavesOfAll, ih]; rfl

lemma elementsOfAll_eq (cs : List Tree) :
    elementsOfAll p i o cs = (placeAll p i o cs).flatMap elements := by
  induction cs generalizing i o with
  | nil => rw [elementsOfAll]; rfl
  | cons c cs ih => rw [elementsOfAll, ih]; rfl

lemma firstLeafOfAll?_eq (cs : List Tree) :
    firstLeafOfAll? p i o cs = (placeAll p i o cs).findSome? firstLeaf? := by
  induction cs generalizing i o with
  | nil => rw [firstLeafOfAll?]; rfl
  | cons c cs ih =>
    rw [firstLeafOfAll?, ih, placeAll_cons, List.findSome?_cons, firstLeaf?, tree_child]
    cases firstLeafOf? (child p i o c) c <;> rfl

lemma lastLeafOfAll?_eq (cs : List Tree) :
    lastLeafOfAll? p i o cs = (placeAll p i o cs).reverse.findSome? lastLeaf? := by
  induction cs generalizing i o with
  | nil => rw [lastLeafOfAll?]; rfl
  | cons c cs ih =>
    rw [lastLeafOfAll?, ih, placeAll_cons, List.reverse_cons, List.findSome?_append]
    cases (placeAll p (i + 1) (o + c.size) cs).reverse.findSome? lastLeaf? <;>
      simp [lastLeaf?]

lemma of_leaf {k : Token} (h : l.tree = .leaf k) :
    l.children = [] ∧ l.leaves = [l] ∧ l.elements = [l] ∧ l.firstLeaf? = some l ∧
      l.lastLeaf? = some l := by
  rw [children, leaves, elements, firstLeaf?, lastLeaf?, h, Tree.children, leavesOf, elementsOf,
    firstLeafOf?, lastLeafOf?]
  exact ⟨rfl, rfl, rfl, rfl, rfl⟩

/-- A node asks its children. -/
lemma of_node (h : l.isNode) :
    l.leaves = l.children.flatMap leaves ∧ l.elements = l :: l.children.flatMap elements ∧
      l.firstLeaf? = l.children.findSome? firstLeaf? ∧
      l.lastLeaf? = l.children.reverse.findSome? lastLeaf? := by
  rw [children, leaves, elements, firstLeaf?, lastLeaf?]
  cases ht : l.tree with
  | leaf k => simp [isNode, ht, Tree.isNode] at h
  | node k cs =>
    rw [Tree.children, leavesOf, elementsOf, firstLeafOf?, lastLeafOf?, leavesOfAll_eq,
      elementsOfAll_eq, firstLeafOfAll?_eq, lastLeafOfAll?_eq]
    exact ⟨rfl, rfl, rfl, rfl⟩

lemma leaf_or_node (l : Located) : (∃ k, l.tree = .leaf k) ∨ l.isNode := by
  cases h : l.tree with
  | leaf k => exact .inl ⟨k, rfl⟩
  | node k cs => exact .inr (by simp [isNode, h, Tree.isNode])

lemma findSome?_congr {α β : Type} {f g : α → Option β} {cs : List α} (h : ∀ c ∈ cs, f c = g c) :
    cs.findSome? f = cs.findSome? g := by
  induction cs with
  | nil => rfl
  | cons c cs ih => simp [List.findSome?_cons, h c, ih fun d hd => h d (by simp [hd])]

/-- The searches for the first and for the last token find those of the list. -/
lemma firstLeaf?_lastLeaf? (l : Located) :
    l.firstLeaf? = l.leaves.head? ∧ l.lastLeaf? = l.leaves.getLast? := by
  induction l using down_induction with | h l ih => ?_
  rcases leaf_or_node l with ⟨k, hk⟩ | hnode
  · obtain ⟨-, hleaves, -, hfirst, hlast⟩ := of_leaf hk
    simp [hleaves, hfirst, hlast]
  · obtain ⟨hleaves, -, hfirst, hlast⟩ := of_node hnode
    rw [hleaves, hfirst, hlast, List.head?_flatMap, List.getLast?_flatMap]
    constructor
    · exact findSome?_congr fun c hc => (ih c hc).1
    · exact findSome?_congr fun c hc => (ih c (List.mem_reverse.mp hc)).2

lemma leaves_eq (l : Located) : l.leaves = l.elements.filter (!·.isNode) := by
  induction l using down_induction with | h l ih => ?_
  rcases leaf_or_node l with ⟨k, hk⟩ | hnode
  · obtain ⟨-, hleaves, helements, -⟩ := of_leaf hk
    simp [hleaves, helements, isNode, hk, Tree.isNode]
  · obtain ⟨hleaves, helements, -⟩ := of_node hnode
    rw [hleaves, helements, List.filter_cons, hnode, List.filter_flatMap]
    exact List.flatMap_congr ih

lemma text_leaves (l : Located) : l.leaves.flatMap (·.tree.text) = l.tree.text := by
  induction l using down_induction with | h l ih => ?_
  rcases leaf_or_node l with ⟨k, hk⟩ | hnode
  · simp [(of_leaf hk).2.1]
  · rw [(of_node hnode).1, List.flatMap_assoc, List.flatMap_congr ih, ← Tree.textAll_children hnode,
      Tree.textAll_eq, ← List.flatMap_map, children, map_tree_placeAll]

lemma tree_leaves (l : Located) : l.leaves.map tree = l.tree.tokens.map .leaf := by
  induction l using down_induction with | h l ih => ?_
  rcases leaf_or_node l with ⟨k, hk⟩ | hnode
  · simp [(of_leaf hk).2.1, hk]
  · have htokens : l.tree.tokens = l.tree.children.flatMap Tree.tokens := by
      cases ht : l.tree with
      | leaf k => simp [isNode, ht, Tree.isNode] at hnode
      | node k cs => exact Tree.tokens_node k cs
    have hchildren : l.children.map tree = l.tree.children := map_tree_placeAll _
    rw [(of_node hnode).1, List.map_flatMap, List.flatMap_congr ih, htokens, List.map_flatMap,
      ← hchildren, List.flatMap_map]

lemma tiles_children (h : l.isNode) : l.range.Tiles (l.children.map range) := by
  have hsize : l.tree.size = Tree.sizeAll l.tree.children := by
    rw [Tree.size_eq, Tree.sizeAll_eq, Tree.textAll_children h]
  rw [range, hsize]
  exact tiles_placeAll l.tree.children

/-- The tokens below a place lie in a row and leave nothing out. -/
lemma tiles_leaves (l : Located) : l.range.Tiles (l.leaves.map range) := by
  induction l using down_induction with | h l ih => ?_
  rcases leaf_or_node l with ⟨k, hk⟩ | hnode
  · rw [(of_leaf hk).2.1]
    exact ⟨rfl, Nat.le_add_right .., rfl⟩
  · rw [(of_node hnode).1, List.map_flatMap]
    exact (tiles_children hnode).flatMap ih

/-! ### Within a tree -/

lemma Within.of_child (h : l.Within t) {c : Located} (hc : c ∈ l.children) : c.Within t := by
  obtain ⟨i, o, u, -, rfl⟩ := mem_placeAll hc
  exact ⟨h, hc⟩

lemma Within.of_element (l : Located) (h : l.Within t) : ∀ m ∈ l.elements, m.Within t := by
  induction l using down_induction with | h l ih => ?_
  intro m hm
  rcases mem_elements.mp hm with rfl | ⟨c, hc, hm⟩
  · exact h
  · exact ih c hc (h.of_child hc) m hm

lemma Within.leads (h : l.Within t) {m : Located} (hm : Leads l m) : m.Within t := by
  have hleaf : ∀ m ∈ l.leaves, m.Within t := fun m hm =>
    Within.of_element l h m (List.mem_filter.mp (leaves_eq l ▸ hm)).1
  obtain ⟨hfirst, hlast⟩ := firstLeaf?_lastLeaf? l
  cases hm with
  | child hm => exact h.of_child hm
  | parent hm =>
    cases l with
    | root u => simp [parent?] at hm
    | child p i o c =>
      obtain rfl : p = m := by simpa [parent?] using hm
      exact h.1
  | nextSibling hm =>
    cases l with
    | root u => simp [nextSibling?] at hm
    | child p i o c =>
      rw [nextSibling?_eq h.2] at hm
      exact h.1.of_child (List.mem_of_mem_drop (List.mem_of_find?_eq_some hm))
  | firstLeaf hm => exact hleaf m (List.mem_of_mem_head? (hfirst ▸ hm))
  | lastLeaf hm => exact hleaf m (List.mem_of_mem_getLast? (hlast ▸ hm))
  | leaf hm => exact hleaf m hm
  | element hm => exact Within.of_element l h m hm

lemma Within.of_reaches {m : Located} (hm : Reaches (root t) m) : m.Within t := by
  induction hm with
  | refl => exact rfl
  | tail _ hstep ih => exact ih.leads hstep

/-- What a place holds is a part of the tree, and stands in its text behind as much text as its
offset says. -/
lemma Within.text (h : l.Within t) : l.tree ∈ t.subtrees ∧
    ∃ before after, t.text = before ++ l.tree.text ++ after ∧ l.offset = Text.size before := by
  induction l with
  | root u =>
    obtain rfl : u = t := h
    exact ⟨Tree.self_mem_subtrees _, [], [], by simp [tree], rfl⟩
  | child p i o c ih =>
    obtain ⟨hp, hc⟩ := h
    obtain ⟨hmem, before, after, ht, ho⟩ := ih hp
    obtain ⟨hi, hoffset⟩ := child_mem_children.mp hc
    refine ⟨Tree.child_mem t hmem (List.mem_of_getElem? hi), ?_⟩
    have hsplit := Tree.textAll_split hi
    rw [Tree.textAll_children (Tree.isNode_of_child hi)] at hsplit
    refine ⟨before ++ Tree.textAll (p.tree.children.take i),
      Tree.textAll (p.tree.children.drop (i + 1)) ++ after, ?_, ?_⟩
    · rw [ht, hsplit]
      simp [tree]
    · rw [Text.size_append, ← ho, ← Tree.sizeAll_eq]
      exact hoffset

/-- A token's own text lies within it, and its trivia around the own text. -/
lemma trivia_of_leaf {k : Token} (h : l.tree = .leaf k)
    (hfits : k.leading.total + k.trailing.total ≤ k.size) :
    l.ownRange.start = l.range.start + k.leading.total ∧ l.ownRange.start ≤ l.ownRange.stop ∧
      l.ownRange.stop + k.trailing.total = l.range.stop := by
  simp only [ownRange, range, h, Token.range, Range.ofSize, true_and]
  rw [Tree.size]
  omega

lemma exact_trivia {k : Token} (h : l.tree = .leaf k)
    (hfits : k.leading.total + k.trailing.total ≤ k.size) :
    Range.Tiles ⟨l.range.start, l.ownRange.start⟩ (l.leadingTrivia.map (·.2)) ∧
    l.leadingTrivia.map (fun p => (p.1, p.2.size)) = k.leading ∧
    l.ownRange.start ≤ l.ownRange.stop ∧
    Range.Tiles ⟨l.ownRange.stop, l.range.stop⟩ (l.trailingTrivia.map (·.2)) ∧
    l.trailingTrivia.map (fun p => (p.1, p.2.size)) = k.trailing := by
  obtain ⟨hstart, hle, hstop⟩ := trivia_of_leaf h hfits
  rw [hstart, ← hstop]
  simp only [leadingTrivia, trailingTrivia, h]
  exact ⟨TriviaSizes.tiles_ranges .., TriviaSizes.sizes_ranges .., hstart ▸ hle,
    TriviaSizes.tiles_ranges .., TriviaSizes.sizes_ranges ..⟩

/-- The ends of a place without trivia: those of its first and of its last token. -/
lemma trimmedRange_of_leaves (l : Located) (hfits : ∀ m ∈ l.leaves, ∀ k, m.tree = .leaf k →
      k.leading.total + k.trailing.total ≤ k.size) {first last : Located}
    (hfirst : l.leaves.head? = some first) (hlast : l.leaves.getLast? = some last) :
    l.trimmedRange = ⟨first.ownRange.start, last.ownRange.stop⟩ ∧
      l.range.start ≤ first.ownRange.start ∧ first.ownRange.start ≤ last.ownRange.stop ∧
      last.ownRange.stop ≤ l.range.stop := by
  have own : ∀ m ∈ l.leaves, m.range.start ≤ m.ownRange.start ∧ m.ownRange.start ≤ m.ownRange.stop ∧
      m.ownRange.stop ≤ m.range.stop := by
    intro m hm
    rcases leaf_or_node m with ⟨k, hk⟩ | hnode
    · obtain ⟨hstart, hle, hstop⟩ := trivia_of_leaf hk (hfits m hm k hk)
      omega
    · rw [leaves_eq, List.mem_filter, hnode] at hm
      simp at hm
  obtain ⟨f1, f2, f3⟩ := own first (List.mem_of_mem_head? hfirst)
  obtain ⟨g1, g2, g3⟩ := own last (List.mem_of_mem_getLast? hlast)
  have hrange : (l.leaves.map range).head? = some first.range := by rw [List.head?_map, hfirst]; rfl
  have hrange' : (l.leaves.map range).getLast? = some last.range := by
    rw [List.getLast?_map, hlast]
    rfl
  obtain ⟨hstart, hstop, hcase⟩ := (tiles_leaves l).ends hrange hrange'
  have hle : first.ownRange.start ≤ last.ownRange.stop := by
    rcases hcase with hone | hle
    · have hlength : l.leaves.length = 1 := by simpa using congrArg List.length hone
      obtain ⟨m, hm⟩ := List.length_eq_one_iff.mp hlength
      obtain rfl : m = first := by simpa [hm] using hfirst
      obtain rfl : m = last := by simpa [hm] using hlast
      exact f2
    · omega
  obtain ⟨hsearch, hsearch'⟩ := firstLeaf?_lastLeaf? l
  refine ⟨?_, by omega, hle, by omega⟩
  rw [trimmedRange, hsearch, hsearch', hfirst, hlast]
  exact congrArg (Range.mk _) (Nat.max_eq_right hle)

/-- A place without the trivia in front of its first token and behind its last one. -/
lemma trimmedRange_of_tokens (l : Located) (hfits : ∀ m ∈ l.leaves, ∀ k, m.tree = .leaf k →
      k.leading.total + k.trailing.total ≤ k.size) {first last : Token}
    (hfirst : l.tree.tokens.head? = some first) (hlast : l.tree.tokens.getLast? = some last) :
    l.trimmedRange.start = l.range.start + first.leading.total ∧
      l.trimmedRange.stop + last.trailing.total = l.range.stop := by
  obtain ⟨m, hm, hmfirst⟩ : ∃ m, l.leaves.head? = some m ∧ m.tree = .leaf first := by
    have h := congrArg List.head? (tree_leaves l)
    rw [List.head?_map, List.head?_map, hfirst] at h
    simpa using h
  obtain ⟨n, hn, hnlast⟩ : ∃ n, l.leaves.getLast? = some n ∧ n.tree = .leaf last := by
    have h := congrArg List.getLast? (tree_leaves l)
    rw [List.getLast?_map, List.getLast?_map, hlast] at h
    simpa using h
  have hmrange : (l.leaves.map range).head? = some m.range := by rw [List.head?_map, hm]; rfl
  have hnrange : (l.leaves.map range).getLast? = some n.range := by rw [List.getLast?_map, hn]; rfl
  obtain ⟨hstart, hstop, -⟩ := (tiles_leaves l).ends hmrange hnrange
  obtain ⟨h1, -, -⟩ := trivia_of_leaf hmfirst (hfits m (List.mem_of_mem_head? hm) first hmfirst)
  obtain ⟨-, -, h2⟩ := trivia_of_leaf hnlast (hfits n (List.mem_of_mem_getLast? hn) last hnlast)
  rw [(trimmedRange_of_leaves l hfits hm hn).1]
  exact ⟨by rw [h1, hstart], by rw [h2, hstop]⟩

/-- In a tree whose tokens hold their trivia, so do the tokens below each place. -/
lemma Within.fits (h : l.Within t) (ht : t.TriviaFits) : ∀ m ∈ l.leaves, ∀ k, m.tree = .leaf k →
    k.leading.total + k.trailing.total ≤ k.size := by
  intro m hm k hk
  have hm' := (Within.of_element l h m (List.mem_filter.mp (leaves_eq l ▸ hm)).1).text.1
  exact ht k (Tree.mem_tokens_of_mem_subtrees t (hk ▸ hm'))

/-- A place in a tree whose tokens hold their trivia is where it is said to be. -/
lemma Within.exact (h : l.Within t) (ht : t.TriviaFits) : l.Exact t := by
  obtain ⟨hmem, before, after, htext, hoffset⟩ := h.text
  have hfits := h.fits ht
  have hparent : ∀ p, l.parent? = some p → ∃ i o c, l = child p i o c ∧
      child p i o c ∈ p.children := by
    intro p hp
    cases l with
    | root u => simp [parent?] at hp
    | child q i o c =>
      obtain rfl : q = p := by simpa [parent?] using hp
      exact ⟨i, o, c, rfl, h.2⟩
  have hends : l.leaves = [] ∨ ∃ first last, l.leaves.head? = some first ∧
      l.leaves.getLast? = some last := by
    rcases hl : l.leaves with _ | ⟨m, ms⟩
    · exact .inl rfl
    · exact .inr ⟨m, _, rfl, List.getLast?_eq_some_getLast (by simp)⟩
  have hempty : l.leaves = [] → l.trimmedRange = .empty l.offset := by
    intro hl
    rw [trimmedRange, (firstLeaf?_lastLeaf? l).1, hl]
    rfl
  constructor
  case text =>
    rw [htext, range, hoffset, Tree.size_eq]
    exact Text.slice?_append ..
  case children => exact tiles_children
  case parent =>
    intro hp
    cases l with
    | root u => rw [show u = t from h]
    | child p i o c => simp [parent?] at hp
  case index =>
    intro p hp
    obtain ⟨i, o, c, rfl, hc⟩ := hparent p hp
    obtain ⟨hi, ho⟩ := child_mem_children.mp hc
    exact ⟨hi, by rw [getElem?_children, index, hi, ho]; rfl⟩
  case nextSibling =>
    intro p hp
    obtain ⟨i, o, c, rfl, hc⟩ := hparent p hp
    exact nextSibling?_eq hc
  case leaves => exact leaves_eq l
  case firstLeaf => exact (firstLeaf?_lastLeaf? l).1
  case lastLeaf => exact (firstLeaf?_lastLeaf? l).2
  case leavesText => exact text_leaves l
  case trivia =>
    exact fun k hk => exact_trivia hk (ht k (Tree.mem_tokens_of_mem_subtrees t (hk ▸ hmem)))
  case trimmedInside =>
    rcases hends with hnone | ⟨first, last, hfirst, hlast⟩
    · rw [hempty hnone]
      exact ⟨Nat.le_refl _, Nat.le_refl _, Nat.le_add_right ..⟩
    · obtain ⟨htrim, h1, h2, h3⟩ := trimmedRange_of_leaves l hfits hfirst hlast
      rw [htrim]
      exact ⟨h1, h2, h3⟩
  case trimmedRange => exact fun first last hfirst hlast =>
    (trimmedRange_of_leaves l hfits hfirst hlast).1
  case trimmedEmpty => exact hempty

/-- **Positions are exact** at every place that is reached from the root, by whatever way, of every
tree in which no token has more trivia than text. -/
theorem exact_of_reaches (t : Tree) (ht : t.TriviaFits) (l : Located) (h : Reaches (root t) l) :
    l.Exact t :=
  (Within.of_reaches h).exact ht

/-- A line that begins with a node without tokens, and whose text does so too and ends with one. -/
def blankLed : Tree :=
  .node .lineStmt [.node .lineCondition [],
    .node .lineText [.node .interpolation [],
      .leaf { leading := [(.whitespace, 2)], kind := .text, fullText := "  a ".toList,
              trailing := [(.whitespace, 1)] },
      .node .interpolation []],
    .leaf { kind := .dedent, fullText := [] }]

/-- The last token of the line's text is reached from the empty node in front of that text. -/
theorem exact_of_reaches_blankLed : blankLed.TriviaFits ∧ ∃ empty text l,
    (root blankLed).firstChild? = some empty ∧ empty.leaves = [] ∧ empty.nextSibling? = some text ∧
      text.lastLeaf? = some l ∧ l.depth = 2 ∧ l.ownRange = ⟨2, 3⟩ ∧
      Reaches (root blankLed) l ∧ l.Exact blankLed := by
  have hfits : blankLed.TriviaFits := by
    intro k hk
    rcases (by simpa [blankLed] using hk) with rfl | rfl <;> decide
  obtain ⟨empty, hempty⟩ : ∃ empty, (root blankLed).firstChild? = some empty := ⟨_, rfl⟩
  obtain ⟨text, htext⟩ : ∃ text, empty.nextSibling? = some text := by
    obtain rfl := Option.some.inj hempty
    exact ⟨_, rfl⟩
  obtain ⟨l, hl, hplace⟩ : ∃ l, text.lastLeaf? = some l ∧ l.depth = 2 ∧ l.ownRange = ⟨2, 3⟩ := by
    obtain rfl := Option.some.inj hempty
    obtain rfl := Option.some.inj htext
    exact ⟨_, rfl, rfl, rfl⟩
  have hreaches : Reaches (root blankLed) l :=
    .tail (.tail (.single (.child (List.mem_of_find?_eq_some hempty))) (.nextSibling htext))
      (.lastLeaf hl)
  refine ⟨hfits, empty, text, l, hempty, ?_, htext, hl, hplace.1, hplace.2, hreaches,
    exact_of_reaches blankLed hfits _ hreaches⟩
  obtain rfl := Option.some.inj hempty
  rfl

end Located

end DialogueScript
