import DialogueScript.Proofs.Grammar.Nesting
import DialogueScript.Proofs.Parse.Unlimited

/-!
The places of a tree, and in how many nested constructs each of them stands.
-/

namespace DialogueScript

open DialogueScript.Parser ParserState

namespace Located

/-- Whether an enum is around this place. -/
def inEnum : Located → Bool
  | root _ => false
  | child parent _ _ _ => parent.inEnum || Tree.anyEnum parent.tree.children

/-- A nested construct other than the blocks in which the cases of an enum stand. -/
def isLevel (l : Located) : Bool := l.isNode && l.kind.nests && !(l.inEnum && l.kind = .block)

/-- On how many nested constructs the way from the root to a place comes by. -/
def levels (l : Located) : Nat := l.ancestors.countP isLevel

/-- What a place itself adds to the levels of the places in it. -/
def ownLevel (l : Located) : Nat := if l.isLevel then 1 else 0

lemma levels_child (parent : Located) (index offset : Nat) (t : Tree) :
    (child parent index offset t).levels =
      parent.levels + (child parent index offset t).ownLevel := by
  rw [levels, ancestors, List.countP_cons]
  rfl

lemma nesting_node {l : Located} {k : Kind} {cs : List Tree} (h : l.tree = .node k cs) :
    l.tree.nesting l.inEnum = l.ownLevel + Tree.nestingAll (l.inEnum || Tree.anyEnum cs) cs := by
  rw [h, Tree.nesting, ownLevel, isLevel, isNode, kind, h]
  rfl

mutual

/-- The levels of a place are among those of the tree it stands in. -/
lemma levels_elementsOf (l : Located) : (t : Tree) → l.tree = t → ∀ x ∈ elementsOf l t,
    x.levels + l.ownLevel ≤ l.levels + t.nesting l.inEnum
  | .leaf token, h, x, hx => by
    have hown : l.ownLevel = 0 := by simp [ownLevel, isLevel, isNode, h, Tree.isNode]
    rw [elementsOf, List.mem_singleton] at hx
    rw [hx, hown]
    omega
  | .node k cs, h, x, hx => by
    have hnode := nesting_node h
    have hchildren : Tree.anyEnum cs = Tree.anyEnum l.tree.children := by rw [h, Tree.children]
    rw [h] at hnode
    rw [hnode]
    rcases List.mem_cons.1 hx with rfl | hx
    · omega
    · have := levels_elementsOfAll l 0 l.offset cs x hx
      rw [← hchildren] at this
      omega

lemma levels_elementsOfAll (l : Located) (index offset : Nat) : (cs : List Tree) →
    ∀ x ∈ elementsOfAll l index offset cs,
      x.levels ≤ l.levels + Tree.nestingAll (l.inEnum || Tree.anyEnum l.tree.children) cs
  | [], x, hx => by simp [elementsOfAll] at hx
  | c :: cs, x, hx => by
    rw [Tree.nestingAll]
    rcases List.mem_append.1 hx with hx | hx
    · have h1 := levels_elementsOf (child l index offset c) c rfl x hx
      have h2 := levels_child l index offset c
      rw [inEnum] at h1
      omega
    · have := levels_elementsOfAll l (index + 1) (offset + c.size) cs x hx
      omega

end

lemma levels_le_nesting (t : Tree) : ∀ x ∈ (root t).elements, x.levels ≤ t.nesting false := by
  intro x hx
  have h := levels_elementsOf (root t) t rfl x hx
  have hroot : (root t).levels = (root t).ownLevel := by
    rw [levels, ancestors, List.countP_singleton]
    rfl
  rw [hroot, inEnum] at h
  omega

end Located

namespace Parse

/-- What every child of the root has, the children of the root of a parse have. -/
lemma layered_children {P : Nat → Tree → Prop} [Layered P] (config : Config) (t : Text) :
    ∀ c ∈ (finalState config t none).forest.inner, P maxDepth c := by
  refine (whole_start config t none).keeps_script ⟨rfl, rfl⟩
    (I := fun u => ∀ c ∈ u.forest.inner, P maxDepth c) (by simp [begun]) (fun _ h => h)
    (fun u hg _ _ hu => ?_) (fun u range hu => by rwa [forest_report]) fun u _ hu => ?_
  · obtain ⟨ys, h1, h2⟩ := ((adds_child (P := P) (u.kindAt .header)).grown hg).inner
    rw [h1]
    exact List.forall_mem_append.2 ⟨h2, hu⟩
  · exact List.forall_mem_cons.2 ⟨Layered.token _ _, hu⟩

lemma shallow_children (config : Config) (t : Text) :
    ∀ c ∈ (finalState config t none).forest.inner, Shallow false maxDepth c :=
  layered_children config t

/-- **Nested constructs are as deep as the limit at most**: on the way from the root to any place, a
parse meets no more blocks, chains, and expressions that hold others than there are levels. Only the
blocks of an enum are not limited. -/
theorem levels_le_maxDepth (config : Config) (t : Text) :
    ∀ l ∈ (ofText config t).root.elements, l.levels ≤ maxDepth := by
  intro l hl
  have hroot : (ofText config t).tree.nesting false ≤ maxDepth :=
    (Tree.nesting_node_le (fun c hc => shallow_children config t c (mem_trees.1 hc)) .sourceFile).2
      rfl
  exact (Located.levels_le_nesting _ l hl).trans hroot

theorem levels_le_maxDepth_block :
    ∃ l ∈ (ofText {} "title: A\n---\n-> a\n  \x7b(1)\x7d\n===\n".toList).root.elements,
      l.levels = 2 ∧ l.levels ≤ maxDepth := by
  obtain ⟨l, hl, hlevels⟩ : ∃ l ∈
      (ofText {} "title: A\n---\n-> a\n  \x7b(1)\x7d\n===\n".toList).root.elements,
      l.levels = 2 := by decide +kernel
  exact ⟨l, hl, hlevels, levels_le_maxDepth {} _ l hl⟩

/-- With the blocks of an enum, more nested constructs stand around a place than the limit says. -/
theorem blocks_exceed_maxDepth :
    (ofText {} (caseBlocksText maxDepth)).diagnostics = [] ∧
      ∃ l ∈ (ofText {} (caseBlocksText maxDepth)).root.elements,
        maxDepth < l.around Kind.nests := by
  obtain ⟨hnone, l, hl, hdeep⟩ := case_blocks_nest {} (n := maxDepth) (by decide)
  refine ⟨hnone, l, hl, hdeep.trans_le (l.around_mono fun k hk => ?_)⟩
  rw [of_decide_eq_true hk]
  rfl

end Parse

end DialogueScript
