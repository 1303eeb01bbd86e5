import DialogueScript.Tree.Preorder
import Mathlib.Algebra.BigOperators.Ring.List
import Mathlib.Algebra.Order.BigOperators.Group.List
import Mathlib.Algebra.Order.Ring.Nat
import Mathlib.Data.List.Basic
import Mathlib.Tactic.Common

/-!
What a walk hands out, told by recursion on the tree. The walk itself only knows the event it hands
out next: it finds the place to go to from the place it has reached, and it stops where it leaves
the node that it began at.
-/

namespace DialogueScript

namespace Located

/-! ### The places below a place -/

variable (parent : Located) (index offset : Nat)

@[simp] lemma placeAll_nil : placeAll parent index offset [] = [] := rfl

@[simp] lemma placeAll_cons (c : Tree) (cs : List Tree) :
    placeAll parent index offset (c :: cs) =
      child parent index offset c :: placeAll parent (index + 1) (offset + c.size) cs := rfl

@[simp] lemma tree_child (t : Tree) : (child parent index offset t).tree = t := rfl

@[simp] lemma isNode_child (t : Tree) : (child parent index offset t).isNode = t.isNode := rfl

variable {parent index offset}

lemma mem_placeAll {c : Located} {cs : List Tree} (h : c ∈ placeAll parent index offset cs) :
    ∃ i o t, t ∈ cs ∧ c = child parent i o t := by
  induction cs generalizing index offset with
  | nil => simp at h
  | cons t cs ih =>
    rw [placeAll_cons, List.mem_cons] at h
    rcases h with rfl | h
    · exact ⟨index, offset, t, by simp, rfl⟩
    · obtain ⟨i, o, u, hu, rfl⟩ := ih h
      exact ⟨i, o, u, List.mem_cons_of_mem _ hu, rfl⟩

lemma sizeOf_lt_of_mem_children {t u : Tree} (h : u ∈ t.children) : sizeOf u < sizeOf t := by
  cases t with
  | leaf token => simp [Tree.children] at h
  | node k cs =>
    have := List.sizeOf_lt_of_mem (show u ∈ cs from h)
    simp only [Tree.node.sizeOf_spec]
    omega

/-- A child holds less than its parent, and is one step further down. -/
lemma of_mem_children {c l : Located} (h : c ∈ l.children) :
    sizeOf c.tree < sizeOf l.tree ∧ c.path.length = l.path.length + 1 ∧ c.parent? = some l := by
  obtain ⟨i, o, t, ht, rfl⟩ := mem_placeAll h
  exact ⟨sizeOf_lt_of_mem_children ht, by simp [path], rfl⟩

lemma mem_children_of_mem_childNodes {c l : Located} (h : c ∈ l.childNodes) : c ∈ l.children :=
  (List.mem_filter.mp h).1

lemma mem_elementsOfAll {x : Located} {cs : List Tree} :
    x ∈ elementsOfAll parent index offset cs ↔
      ∃ c ∈ placeAll parent index offset cs, x ∈ c.elements := by
  induction cs generalizing index offset with
  | nil => simp [elementsOfAll]
  | cons t cs ih => rw [elementsOfAll, List.mem_append, ih, placeAll_cons]; simp [elements, tree]

/-- What is found from a place down is the place itself or is found from a child down. -/
lemma mem_elements {x l : Located} : x ∈ l.elements ↔ x = l ∨ ∃ c ∈ l.children, x ∈ c.elements := by
  rw [elements, children]
  cases l.tree with
  | leaf token => simp [elementsOf, Tree.children]
  | node k cs => rw [elementsOf, List.mem_cons, mem_elementsOfAll, Tree.children]

/-- Everything below a place is further down than it and holds less. -/
lemma below_of_mem_elements (l x : Located) (h : x ∈ l.elements) :
    x = l ∨ (l.path.length < x.path.length ∧ sizeOf x.tree < sizeOf l.tree) := by
  rcases mem_elements.mp h with rfl | ⟨c, hc, hx⟩
  · exact .inl rfl
  · obtain ⟨hsize, hlength, -⟩ := of_mem_children hc
    rcases below_of_mem_elements c x hx with rfl | ⟨h1, h2⟩
    · exact .inr ⟨by omega, hsize⟩
    · exact .inr ⟨by omega, by omega⟩
termination_by sizeOf l.tree
decreasing_by exact (of_mem_children hc).1

/-- Below a place, its path is that of the place alone, and so are its offset and tree together. -/
lemma path_eq_iff_of_mem_elements {l x : Located} (h : x ∈ l.elements) :
    x.path = l.path ↔ x.offset = l.offset ∧ x.tree = l.tree := by
  rcases below_of_mem_elements l x h with rfl | ⟨hlength, hsize⟩
  · simp
  · constructor
    · intro hpath
      rw [hpath] at hlength
      omega
    · rintro ⟨-, htree⟩
      rw [htree] at hsize
      omega

lemma nextSibling?_child (t : Tree) (cs : List Tree)
    (h : parent.tree.children.drop index = t :: cs) :
    (child parent index offset t).nextSibling? =
      (placeAll parent (index + 1) (offset + t.size) cs).find? isNode := by
  have hdrop : parent.tree.children.drop (index + 1) = cs := by
    rw [← List.tail_drop, h, List.tail_cons]
  rw [nextSibling?, hdrop]

/-- The walk through a node: the node is entered, the nodes right below it are walked through in
order unless `prune` selects its kind, and the node is left. -/
def prunedWalk (prune : Kind → Bool) (l : Located) : List WalkEvent :=
  .enter l :: (if prune l.kind then []
    else l.childNodes.attach.flatMap fun c => prunedWalk prune c.1) ++ [.leave l]
termination_by sizeOf l.tree
decreasing_by exact (of_mem_children (mem_children_of_mem_childNodes c.2)).1

variable (prune : Kind → Bool)

lemma prunedWalk_eq (l : Located) :
    prunedWalk prune l = .enter l :: (if prune l.kind then []
      else l.childNodes.flatMap (prunedWalk prune)) ++ [.leave l] := by
  rw [prunedWalk, List.flatMap_subtype (g := prunedWalk prune) (fun _ _ => rfl),
    List.unattach_attach]

/-- A walk stays below the node that it began at. -/
lemma node_mem_elements_of_mem_prunedWalk (l : Located) (e : WalkEvent)
    (h : e ∈ prunedWalk prune l) :
    e.node ∈ l.elements := by
  have hself : l ∈ l.elements := mem_elements.mpr (.inl rfl)
  rw [prunedWalk_eq, List.mem_append, List.mem_cons, List.mem_singleton] at h
  rcases h with (rfl | h) | rfl
  · exact hself
  · cases hprune : prune l.kind with
    | true => simp [hprune] at h
    | false =>
      obtain ⟨c, hc, he⟩ := List.mem_flatMap.mp (by simpa [hprune] using h)
      have hchild := mem_children_of_mem_childNodes hc
      exact mem_elements.mpr (.inr ⟨c, hchild, node_mem_elements_of_mem_prunedWalk c e he⟩)
  · exact hself
termination_by sizeOf l.tree
decreasing_by exact (of_mem_children hchild).1

lemma nodeCountAll_eq (cs : List Tree) :
    Tree.nodeCountAll cs =
      (((placeAll parent index offset cs).filter isNode).map fun c => c.tree.nodeCount).sum := by
  induction cs generalizing index offset with
  | nil => simp [Tree.nodeCountAll]
  | cons t cs ih =>
    rw [Tree.nodeCountAll, placeAll_cons, @ih (index + 1) (offset + t.size),
      List.filter_cons, isNode_child]
    cases t <;> simp [Tree.isNode, Tree.nodeCount]

lemma nodeCount_eq {l : Located} (h : l.isNode) :
    l.tree.nodeCount = (l.childNodes.map fun c => c.tree.nodeCount).sum + 1 := by
  rw [childNodes, children, ← nodeCountAll_eq]
  cases htree : l.tree with
  | leaf token => simp [isNode, htree, Tree.isNode] at h
  | node k cs => rw [Tree.nodeCount, Tree.children]

/-- Every node is entered and left at most once. -/
lemma length_prunedWalk_le (l : Located) (h : l.isNode) :
    (prunedWalk prune l).length ≤ 2 * l.tree.nodeCount := by
  have hbelow : ((l.childNodes.map fun c => (prunedWalk prune c).length).sum) ≤
      2 * (l.childNodes.map fun c => c.tree.nodeCount).sum := by
    have hall : ∀ c ∈ l.childNodes, (prunedWalk prune c).length ≤ 2 * c.tree.nodeCount := by
      intro c hc
      have hchild := mem_children_of_mem_childNodes hc
      exact length_prunedWalk_le c (List.mem_filter.mp hc).2
    rw [← List.sum_map_mul_left]
    exact List.sum_le_sum hall
  rw [prunedWalk_eq, nodeCount_eq h]
  cases prune l.kind with
  | true => simp
  | false =>
    simp [List.length_flatMap]
    omega
termination_by sizeOf l.tree
decreasing_by exact (of_mem_children hchild).1

/-- The node that an event enters. -/
def entered? : WalkEvent → Option Located
  | .enter l => some l
  | .leave _ => none

lemma filter_elementsOfAll (cs : List Tree) :
    (elementsOfAll parent index offset cs).filter isNode =
      ((placeAll parent index offset cs).filter isNode).flatMap nodes := by
  induction cs generalizing index offset with
  | nil => simp [elementsOfAll]
  | cons t cs ih =>
    rw [elementsOfAll, placeAll_cons, List.filter_append, ih, List.filter_cons, isNode_child]
    cases t <;> simp [Tree.isNode, nodes, elements, elementsOf]

/-- The nodes from a place down are those that an unpruned walk enters. -/
theorem filterMap_prunedWalk (l : Located) (h : l.isNode) :
    (prunedWalk (fun _ => false) l).filterMap entered? = l.nodes := by
  have hbelow : (l.childNodes.flatMap (prunedWalk fun _ => false)).filterMap entered? =
      l.childNodes.flatMap nodes := by
    rw [List.filterMap_flatMap]
    refine List.flatMap_congr fun c hc => ?_
    have hchild := mem_children_of_mem_childNodes hc
    exact filterMap_prunedWalk c (List.mem_filter.mp hc).2
  rw [prunedWalk_eq, childNodes, children] at *
  cases htree : l.tree with
  | leaf token => simp [isNode, htree, Tree.isNode] at h
  | node k cs =>
    rw [htree, Tree.children] at hbelow
    simp [nodes, elements, htree, elementsOf, isNode, Tree.isNode, filter_elementsOfAll,
      Tree.children, entered?, hbelow]
termination_by sizeOf l.tree
decreasing_by exact (of_mem_children hchild).1

end Located

namespace Preorder

open Located

variable {start : Located}

/-! ### Runs of a walk -/

/-- The walk after an event has been handed out to a reader that asks for skips where `skip` says
so. -/
def resume (skip : WalkEvent → Bool) (e : WalkEvent) (p : Preorder) : Preorder :=
  if skip e then p.skipSubtree else p

/-- From `p` on, the walk hands out `es` and is then in the state `q`. -/
def HandsOut (skip : WalkEvent → Bool) (p : Preorder) : List WalkEvent → Preorder → Prop
  | [], q => p = q
  | e :: es, q => p.step.1 = some e ∧ HandsOut skip (resume skip e p.step.2) es q

variable {skip : WalkEvent → Bool}

lemma HandsOut.append {p q r : Preorder} {es fs : List WalkEvent} (h : HandsOut skip p es q)
    (h' : HandsOut skip q fs r) : HandsOut skip p (es ++ fs) r := by
  induction es generalizing p with
  | nil => exact (show p = q from h) ▸ h'
  | cons e es ih => exact ⟨h.1, ih h.2⟩

/-- A reader gets what is handed out until it has had enough, and after that what comes from the
state in which the walk then is. -/
lemma HandsOut.take_eq {p q : Preorder} {es : List WalkEvent} (h : HandsOut skip p es q) (n : Nat) :
    p.take skip n = es.take n ++ q.take skip (n - es.length) := by
  induction es generalizing p n with
  | nil => simp [show p = q from h]
  | cons e es ih =>
    obtain ⟨hstep, hrest⟩ := h
    cases n with
    | zero => simp [take]
    | succ n =>
      have hnext := ih hrest n
      rw [take, show p.step = (some e, p.step.2) from Prod.ext hstep rfl]
      simp only [resume] at hnext
      simp [hnext]

/-- Once a walk has nothing to hand out, it never has anything again. -/
lemma take_of_next_eq_none (skipping : Bool) (n : Nat) :
    take skip n ⟨start, none, skipping⟩ = [] := by
  cases n <;> cases skipping <;> simp [take, step]

/-- The walk in front of an event. -/
def before (start : Located) (e : WalkEvent) : Preorder := ⟨start, some e, false⟩

/-- Where a walk goes next among the places `row` below `l`: into the first of the nodes in the row,
or out of `l` if there is none. -/
def arrival (l : Located) (row : List Located) : WalkEvent :=
  match row.find? isNode with
  | some c => .enter c
  | none => .leave l

lemma following_enter (l : Located) : following start (.enter l) = some (arrival l l.children) := by
  rw [following, firstChild?, arrival]
  cases l.children.find? isNode <;> rfl

/-- Behind a node that is not the one the walk began at, it goes on among the places behind the
node. -/
lemma following_leave {l : Located} {index offset : Nat} {t : Tree} {cs : List Tree}
    (hbelow : start.path.length < (child l index offset t).path.length)
    (hcs : l.tree.children.drop index = t :: cs) :
    following start (.leave (child l index offset t)) =
      some (arrival l (placeAll l (index + 1) (offset + t.size) cs)) := by
  have hne : (child l index offset t).path ≠ start.path := by
    intro h
    rw [h] at hbelow
    omega
  rw [following, if_neg hne, nextSibling?_child t cs hcs, arrival]
  cases (placeAll l (index + 1) (offset + t.size) cs).find? isNode <;> rfl

/-- A skip asked for on entering a node makes the walk leave it at once. -/
lemma skipped_arrival (l : Located) : skipped (arrival l l.children) = some (.leave l) := by
  cases h : l.children.find? isNode with
  | none => simp [arrival, h, skipped]
  | some c =>
    have hc := (of_mem_children (List.mem_of_find?_eq_some h)).2.2
    simp [arrival, h, skipped, hc]

/-! ### The walk through a node -/

variable (prune : Kind → Bool)

/-- A reader that asks for a skip after entering a node of a kind that `prune` selects. -/
def skipAt (e : WalkEvent) : Bool := e.isEnter && prune e.node.kind

/-- What a walk hands out on its way through a node, and where it is after leaving the node. -/
def Passes (start l : Located) : Prop :=
  HandsOut (skipAt prune) (before start (.enter l)) (prunedWalk prune l)
    ⟨start, following start (.leave l), false⟩

variable {prune}

lemma handsOut_leave (l : Located) :
    HandsOut (skipAt prune) (before start (.leave l)) [.leave l]
      ⟨start, following start (.leave l), false⟩ :=
  ⟨rfl, rfl⟩

/-- A walk through nodes in a row, each of which it passes, ends with leaving the node above. The
induction is on the trees that are still to come, of which the first has the given index. -/
lemma handsOut_row {l : Located} {index offset : Nat} (cs : List Tree)
    (hbelow : start.path.length ≤ l.path.length) (hcs : l.tree.children.drop index = cs)
    (hpasses : ∀ c ∈ placeAll l index offset cs, c.isNode → Passes prune start c) :
    HandsOut (skipAt prune) (before start (arrival l (placeAll l index offset cs)))
      (((placeAll l index offset cs).filter isNode).flatMap (prunedWalk prune))
      (before start (.leave l)) := by
  induction cs generalizing index offset with
  | nil => exact rfl
  | cons t cs ih =>
    have hdrop : l.tree.children.drop (index + 1) = cs := by
      rw [← List.tail_drop, hcs, List.tail_cons]
    have hrest := @ih (index + 1) (offset + t.size) hdrop fun c hc =>
      hpasses c (List.mem_cons_of_mem _ hc)
    rw [placeAll_cons]
    cases hnode : (child l index offset t).isNode with
    | false => simpa [arrival, hnode] using hrest
    | true =>
      have hfirst := hpasses (child l index offset t) (by simp) hnode
      rw [Passes, following_leave (by simp [path]; omega) hcs] at hfirst
      simpa [arrival, hnode] using hfirst.append hrest

/-- A walk passes every node from the one it began at down. -/
lemma passes (l : Located) (hbelow : start.path.length ≤ l.path.length) : Passes prune start l := by
  have hchildren : ∀ c ∈ l.children, Passes prune start c := fun c hc => by
    have := (of_mem_children hc).2.1
    exact passes c (by omega)
  have hstep : (before start (.enter l)).step =
      (some (.enter l), before start (arrival l l.children)) := by
    rw [before, step, before]
    simp [following_enter]
  rw [Passes, prunedWalk_eq]
  refine ⟨by rw [hstep], ?_⟩
  rw [hstep]
  cases hprune : prune l.kind with
  | true =>
    have hresume : resume (skipAt prune) (.enter l) (before start (arrival l l.children)) =
        ⟨start, some (arrival l l.children), true⟩ := by
      simp [resume, skipAt, WalkEvent.isEnter, WalkEvent.node, hprune, skipSubtree, before]
    rw [hresume]
    refine ⟨by simp [step, skipped_arrival], ?_⟩
    simp [HandsOut, resume, skipAt, WalkEvent.isEnter, step, skipped_arrival]
  | false =>
    have hresume : resume (skipAt prune) (.enter l) (before start (arrival l l.children)) =
        before start (arrival l l.children) := by
      simp [resume, skipAt, WalkEvent.isEnter, WalkEvent.node, hprune]
    rw [hresume]
    have hrow : HandsOut (skipAt prune) (before start (arrival l l.children)) _
        (before start (.leave l)) :=
      handsOut_row l.tree.children hbelow (List.drop_zero ..) fun c hc _ => hchildren c hc
    exact hrow.append (handsOut_leave l)
termination_by sizeOf l.tree
decreasing_by exact (of_mem_children hc).1

/-- What a reader gets from a walk, however often it asks. -/
lemma take_eq (start : Located) (n : Nat) :
    (ofNode start).take (skipAt prune) n = (prunedWalk prune start).take n := by
  have hpasses : Passes prune start start := passes start (Nat.le_refl _)
  have hwalk := hpasses.take_eq n
  have hend : following start (.leave start) = none := by rw [following, if_pos rfl]
  rw [hend, take_of_next_eq_none, List.append_nil] at hwalk
  exact hwalk

/-- **A reader that skips below the nodes of some kinds gets exactly the walk that passes over what
is below them**, and nothing after it, whatever node the walk begins at. All of it lies below that
node, and there the test at which the walk stops holds of the node alone, also when it asks for the
offset and the tree in place of the path. -/
theorem take_ofNode (prune : Kind → Bool) (start : Located) :
    (∀ n, (ofNode start).take (fun e => e.isEnter && prune e.node.kind) n =
      (prunedWalk prune start).take n) ∧
    (∀ e ∈ prunedWalk prune start, e.node ∈ start.elements) ∧
    ∀ l ∈ start.elements, (l.path = start.path ↔ l = start) ∧
      (l.offset = start.offset ∧ l.tree = start.tree ↔ l = start) := by
  refine ⟨take_eq start, node_mem_elements_of_mem_prunedWalk prune start, fun l hl => ?_⟩
  have hpath : l.path = start.path ↔ l = start := by
    refine ⟨fun h => ?_, fun h => by rw [h]⟩
    rcases below_of_mem_elements start l hl with rfl | ⟨hlength, -⟩
    · rfl
    · rw [h] at hlength
      omega
  exact ⟨hpath, (path_eq_iff_of_mem_elements hl).symm.trans hpath⟩

/-- The events that are asked for in a whole walk are all there are. -/
theorem walk_eq (prune : Kind → Bool) (l : Located) (h : l.isNode) :
    l.walk (fun e => e.isEnter && prune e.node.kind) = prunedWalk prune l := by
  rw [walk, show (fun e : WalkEvent => e.isEnter && prune e.node.kind) = skipAt prune from rfl,
    take_eq]
  exact List.take_of_length_le (length_prunedWalk_le prune l h)

end Preorder

end DialogueScript
