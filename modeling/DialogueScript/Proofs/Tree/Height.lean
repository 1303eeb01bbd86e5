import Mathlib.Order.Lattice
import DialogueScript.Tree.Located

/-!
How many nodes of some kinds stand inside each other at most, and a place around which so many do.
-/

namespace DialogueScript

namespace Tree

mutual

/-- The most nodes of the kinds `p` on a way down a tree. -/
def height (p : Kind → Bool) : Tree → Nat
  | leaf _ => 0
  | node k cs => (if p k then 1 else 0) + heightAll p cs

def heightAll (p : Kind → Bool) : List Tree → Nat
  | [] => 0
  | c :: cs => max (height p c) (heightAll p cs)

end

section
variable {p : Kind → Bool} {c : Tree} {cs : List Tree}

lemma height_le_heightAll (h : c ∈ cs) : c.height p ≤ heightAll p cs := by
  induction cs with
  | nil => simp at h
  | cons d cs ih =>
    rw [heightAll]
    rcases List.mem_cons.1 h with rfl | h
    · exact le_max_left _ _
    · exact (ih h).trans (le_max_right _ _)

lemma height_le_node (h : c ∈ cs) (k : Kind) : c.height p ≤ (node k cs).height p := by
  have := height_le_heightAll (p := p) h
  rw [height]
  omega

lemma height_lt_node (h : c ∈ cs) {k : Kind} (hk : p k = true) :
    c.height p < (node k cs).height p := by
  have := height_le_heightAll (p := p) h
  rw [height, if_pos hk]
  omega

end

end Tree

namespace Located

variable {p : Kind → Bool}

/-- How many nodes of the kinds `p` are met on the way from the root to a place. -/
def around (p : Kind → Bool) (l : Located) : Nat := l.ancestors.countP fun m => m.isNode && p m.kind

/-- What a place itself adds. -/
def self (p : Kind → Bool) (l : Located) : Nat := if l.isNode && p l.kind then 1 else 0

lemma around_child (parent : Located) (index offset : Nat) (t : Tree) :
    (child parent index offset t).around p =
      parent.around p + (child parent index offset t).self p := by
  rw [around, ancestors, List.countP_cons]
  rfl

/-- More kinds are met more often. -/
lemma around_mono {q : Kind → Bool} (h : ∀ k, p k = true → q k = true) (l : Located) :
    l.around p ≤ l.around q := by
  refine List.countP_mono_left fun m _ hm => ?_
  simp only [Bool.and_eq_true] at hm ⊢
  exact ⟨hm.1, h _ hm.2⟩

mutual

/-- Some way down goes by as many nodes as the tree is high. -/
lemma exists_elementsOf (l : Located) : (t : Tree) → l.tree = t →
    ∃ x ∈ elementsOf l t, x.around p + l.self p = l.around p + t.height p
  | .leaf _, h => ⟨l, by simp [elementsOf], by simp [self, isNode, h, Tree.isNode, Tree.height]⟩
  | .node k cs, h => by
    have hself : l.self p = if p k then 1 else 0 := by
      simp [self, isNode, kind, h, Tree.isNode, Tree.kind]
    rw [Tree.height, hself]
    rcases exists_elementsOfAll l 0 l.offset cs with rfl | ⟨x, hx, heq⟩
    · exact ⟨l, by simp [elementsOf], by simp [Tree.heightAll]⟩
    · exact ⟨x, List.mem_cons_of_mem _ hx, by omega⟩

lemma exists_elementsOfAll (l : Located) (index offset : Nat) : (cs : List Tree) →
    cs = [] ∨ ∃ x ∈ elementsOfAll l index offset cs, x.around p = l.around p + Tree.heightAll p cs
  | [] => .inl rfl
  | c :: cs => by
    right
    obtain ⟨x, hx, heq⟩ := exists_elementsOf (child l index offset c) c rfl
    have hchild := around_child (p := p) l index offset c
    have hfirst : x ∈ elementsOfAll l index offset (c :: cs) := List.mem_append_left _ hx
    rw [Tree.heightAll]
    rcases exists_elementsOfAll l (index + 1) (offset + c.size) cs with rfl | ⟨y, hy, heq'⟩
    · exact ⟨x, hfirst, by rw [Tree.heightAll, Nat.max_zero]; omega⟩
    rcases Nat.le_total (c.height p) (Tree.heightAll p cs) with h | h
    · exact ⟨y, List.mem_append_right _ hy, by rw [max_eq_right h, heq']⟩
    · exact ⟨x, hfirst, by rw [max_eq_left h]; omega⟩

end

/-- **A tree is as high as the way to some place**, counted in nodes of some kinds. -/
lemma exists_around (t : Tree) : ∃ l ∈ (root t).elements, l.around p = t.height p := by
  obtain ⟨x, hx, heq⟩ := exists_elementsOf (p := p) (root t) t rfl
  have hroot : (root t).around p = (root t).self p := by
    rw [around, ancestors, List.countP_singleton]
    rfl
  exact ⟨x, hx, by omega⟩

end Located

end DialogueScript
