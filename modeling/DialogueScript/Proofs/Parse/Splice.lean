import DialogueScript.Proofs.Parse.Reparse

/-!
However many edits a parse has been through, its tree holds the current text. The node that is read
again after an edit takes the place of the old one in the text as well: it starts at its checkpoint,
and it ends as far from the end of the text as the old one did.
-/

namespace DialogueScript

open DialogueScript.Parser ParserState

namespace Parse

/-- A parse holds a text: its tree does, each checkpoint stands where its child starts, and a
scanner can go on there. -/
structure Holds (p : Parse) (t : Text) : Prop where
  root : p.tree = .node .sourceFile p.tree.children
  text : Tree.textAll p.tree.children = t
  offset : ∀ i c, p.checkpoints[i]? = some c →
    c.offset = Text.size (Tree.textAll (p.tree.children.take i))
  rising : ∀ c ∈ p.checkpoints, c.stack.Rising

lemma Holds.tree_text {p : Parse} {t : Text} (h : p.Holds t) : p.tree.text = t := by
  rw [h.root, Tree.text_node, h.text]

/-- Each checkpoint is that of a state between two children. -/
lemma state_at_checkpoint {config : Config} {t : Text} {trees : List Tree} {u : ParserState}
    (h : Siblings (initial config t) trees u) {i : Nat} {c : Checkpoint}
    (hc : (u.checkpoints ++ [u.point])[i]? = some c) : i ≤ trees.length ∧
      ∃ s, Siblings (initial config t) (trees.take i) s ∧ Siblings s (trees.drop i) u ∧
        c = s.point := by
  have hi : i ≤ trees.length := by
    have hlt := (List.getElem?_eq_some_iff.1 hc).1
    obtain ⟨ps, hlen, hps, -⟩ := (h.past (ready_initial config t)).checkpoints
    simp only [List.length_append, List.length_singleton, hps, initial, begun, List.length_nil]
      at hlt
    omega
  rw [← List.take_append_drop i trees] at h
  obtain ⟨s, h1, h2⟩ := h.split
  have hpoint := checkpoint_at h1 h2
  rw [List.length_take_of_le hi, hc, Option.some.injEq] at hpoint
  exact ⟨hi, s, h1, h2, hpoint⟩

lemma holds_ofText (config : Config) (t : Text) : (ofText config t).Holds t := by
  obtain ⟨trees, u, extra, h1, -, -, -, -, h5⟩ := ofText_eq config t
  have hpoints : (ofText config t).checkpoints = u.checkpoints ++ [u.point] := by rw [h5, assembled]
  refine ⟨rfl, textAll_children config t, fun i c hc => ?_, fun c hc => ?_⟩
  · rw [hpoints] at hc
    obtain ⟨hi, s, h2, -, rfl⟩ := state_at_checkpoint h1 hc
    rw [h5, assembled, Tree.children, List.take_append_of_le_length hi]
    exact (standing h2).2
  · obtain ⟨i, hi⟩ := List.mem_iff_getElem?.1 (hpoints ▸ hc)
    obtain ⟨-, s, h2, -, rfl⟩ := state_at_checkpoint h1 hi
    exact (h2.past (ready_initial config t)).ready.good.scanner.rising

/-! ### The node in its place -/

lemma reading_item : Reading item :=
  .bind Rule.reads fun found => by
    cases found
    · exact (inferInstance : Rule (pure false)).reads
    · exact .bind reading_dialogueNode fun _ => Rule.reads

/-- A single tree that is read from a place on is the text up to where reading ends. -/
lemma item_text {scanner : Scanner} (hs : scanner.Good) (hd : scanner.diagnostics = [])
    {tree : Tree} (htree : (item.after { scanner }).forest.trees = [tree]) :
    scanner.rest = tree.text ++ (item.after { scanner }).scanner.rest ∧
      (item.after { scanner }).scanner.offset = scanner.offset + Text.size tree.text := by
  have hf := reading_item.follows (s := { scanner }) ⟨hs, hd⟩
  generalize item.after { scanner } = s at hf htree
  have hinner : s.forest.inner = [tree] := by
    rw [← List.reverse_reverse s.forest.inner, ← Forest.trees, htree]
    rfl
  have houter : s.forest.outer = [] := hf.outer
  have htext : tree.text ++ s.scanner.rest = scanner.rest := by
    have := hf.text
    simpa [Forest.text, hinner, houter] using this
  have hoff := hf.offset
  simp only [← htext, Text.size_append] at hoff
  exact ⟨htext.symm, by omega⟩

lemma exchange?_eq_some {old p : Parse} {e : Edit} {t : Text} {index : Nat} {here next : Checkpoint}
    {node : Tree} {found : List Diagnostic}
    (h : exchange? old e t index here next node found = some p) :
    old.tree.replaceChild? index node = some p.tree ∧ p.config = old.config ∧
      (p.checkpoints = old.checkpoints.take (index + 1) ++
        (old.checkpoints.drop (index + 1)).map fun c =>
          { c with
            offset := e.move c.offset
            diagnostics := c.diagnostics - (next.diagnostics - here.diagnostics) + found.length }) ∧
      ∃ later, (old.diagnostics.drop next.diagnostics).mapM (·.shift? e.delta) = some later ∧
        Diagnostic.locateAll? t (old.diagnostics.take here.diagnostics ++ found ++ later) =
          some p.diagnostics := by
  simp only [exchange?, Option.bind_eq_bind, Option.bind_eq_some_iff, Option.pure_def,
    Option.some.injEq] at h
  obtain ⟨later, hlater, diagnostics, hlocated, tree, htree, rfl⟩ := h
  exact ⟨htree, rfl, rfl, later, hlater, hlocated⟩

/-- The exchange of a node keeps the blocks that are open at the checkpoints. -/
lemma rising_of_exchange? {old p : Parse} {e : Edit} {t : Text} {index : Nat}
    {here next : Checkpoint} {node : Tree} {found : List Diagnostic}
    (h : exchange? old e t index here next node found = some p)
    (hold : ∀ c ∈ old.checkpoints, c.stack.Rising) : ∀ c ∈ p.checkpoints, c.stack.Rising := by
  intro c hc
  rw [(exchange?_eq_some h).2.2.1] at hc
  rcases List.mem_append.1 hc with hc | hc
  · exact hold c (List.mem_of_mem_take hc)
  · obtain ⟨c, hmem, rfl⟩ := List.mem_map.1 hc
    exact hold c (List.mem_of_mem_drop hmem)

/-- What reading one child again rests on, where it is not refused. -/
lemma reparseChild_cases {old : Parse} {e : Edit} {t : Text} {index : Nat} {range : Range}
    {answer : Option Reparsed} (h : reparseChild old e t index range = some answer) :
    ∃ here next, old.checkpoints[index]? = some here ∧ old.checkpoints[index + 1]? = some next ∧
      (Scanner.resume? old.config t here.offset here.stack = none ∧ answer = none ∨
        ∃ scanner cs, Scanner.resume? old.config t here.offset here.stack = some scanner ∧
          (item.after { scanner }).forest.trees = [.node .dialogueNode cs] ∧
          (item.after { scanner }).scanner.offset = e.move range.stop ∧
          answer = (exchange? old e t index here next (.node .dialogueNode cs)
            (item.after { scanner }).diagnostics).map fun parse => ⟨parse, some index⟩) := by
  simp only [reparseChild, Option.bind_eq_bind, Option.bind_eq_some_iff] at h
  obtain ⟨here, hhere, next, hnext, h⟩ := h
  refine ⟨here, next, hhere, hnext, ?_⟩
  split at h
  · next hresume => exact .inl ⟨hresume, (Option.some.inj h).symm⟩
  · next scanner hresume =>
    have hrun : item.run { scanner } = (item.answer { scanner }, item.after { scanner }) := rfl
    rw [hrun] at h
    simp only at h
    split at h
    · next cs _ htrees =>
      split at h
      · next hplace =>
        simp only [Bool.and_eq_true, decide_eq_true_eq] at hplace
        exact .inr ⟨scanner, cs, hresume, htrees, hplace.1, (Option.some.inj h).symm⟩
      · simp at h
    · simp at h

/-- What it rests on where it succeeds. -/
lemma reparseChild_eq_some {old : Parse} {e : Edit} {t : Text} {index : Nat} {range : Range}
    {r : Reparsed} (h : reparseChild old e t index range = some (some r)) :
    ∃ here next scanner cs, old.checkpoints[index]? = some here ∧
      old.checkpoints[index + 1]? = some next ∧
      Scanner.resume? old.config t here.offset here.stack = some scanner ∧
      (item.after { scanner }).forest.trees = [.node .dialogueNode cs] ∧
      (item.after { scanner }).scanner.offset = e.move range.stop ∧
      exchange? old e t index here next (.node .dialogueNode cs)
        (item.after { scanner }).diagnostics = some r.parse := by
  obtain ⟨here, next, hhere, hnext, ⟨-, hanswer⟩ | ⟨scanner, cs, h1, h2, h3, hanswer⟩⟩ :=
    reparseChild_cases h
  · simp at hanswer
  · obtain ⟨parse, hparse, rfl⟩ := Option.map_eq_some_iff.1 hanswer.symm
    exact ⟨here, next, scanner, cs, hhere, hnext, h1, h2, h3, hparse⟩

/-! ### Parsing again -/

/-- Everything is parsed, or one child of the root is read again. -/
lemma reparse?_eq_some {old : Parse} {e : Edit} {t : Text} {r : Reparsed}
    (h : old.reparse? e t = some r) :
    r.parse = ofText old.config t ∨ ∃ index range,
      editedNode? e 0 0 old.tree.children = some (index, range) ∧
        reparseChild old e t index range = some (some r) := by
  unfold reparse? at h
  simp only at h
  split at h
  · split at h
    · next index range hedit =>
      rcases hchild : reparseChild old e t index range with _ | _ | r' <;> rw [hchild] at h
      · exact .inl (congrArg Reparsed.parse (Option.some.inj h)).symm
      · simp at h
      · exact .inr ⟨index, range, hedit, hchild.trans (congrArg some h)⟩
    · exact .inl (congrArg Reparsed.parse (Option.some.inj h)).symm
  · exact .inl (congrArg Reparsed.parse (Option.some.inj h)).symm

lemma reparse?_eq_none {old : Parse} {e : Edit} {t : Text} (h : old.reparse? e t = none) :
    ∃ index range, editedNode? e 0 0 old.tree.children = some (index, range) ∧
      reparseChild old e t index range = some none := by
  unfold reparse? at h
  simp only at h
  split at h
  · split at h
    · next index range hedit =>
      rcases hchild : reparseChild old e t index range with _ | _ | r <;> rw [hchild] at h
      · simp at h
      · exact ⟨index, range, hedit, hchild⟩
      · simp at h
    · simp at h
  · simp at h

lemma replace?_eq_some {t t' insert : Text} {delete : Range} (hr : delete.start ≤ delete.stop)
    (h : Text.replace? t delete insert = some t') : ∃ before deleted after,
      t = before ++ deleted ++ after ∧ t' = before ++ insert ++ after ∧
      delete = .ofSize (Text.size before) (Text.size deleted) := by
  simp only [Text.replace?, Option.bind_eq_bind, Option.bind_eq_some_iff, Prod.exists,
    Option.pure_def, Option.some.injEq] at h
  obtain ⟨before, tail, h1, deleted, after, h2, rfl⟩ := h
  obtain ⟨rfl, h3⟩ := Text.cut?_eq_some.1 h1
  obtain ⟨rfl, h4⟩ := Text.cut?_eq_some.1 h2
  refine ⟨before, deleted, after, by simp, rfl, ?_⟩
  obtain ⟨start, stop⟩ := delete
  simp only [Range.size] at h3 h4 hr
  simp only [Range.ofSize, Range.mk.injEq]
  omega

/-- The part of a text that a node covers, and the part that an edit within the node leaves. -/
lemma split_edit {a b c before deleted after : Text} (inserted : Text)
    (heq : a ++ b ++ c = before ++ deleted ++ after) (hstart : Text.size a < Text.size before)
    (hstop : Text.size before + Text.size deleted < Text.size a + Text.size b) :
    ∃ z w, before = a ++ z ∧ after = w ++ c ∧
      before ++ inserted ++ after = a ++ (z ++ inserted ++ w) ++ c ∧
      Text.size b = Text.size z + Text.size deleted + Text.size w := by
  obtain ⟨z, -, rfl, -⟩ := Text.split_of_size_lt
    (a := a) (b := before) (by rw [← List.append_assoc, ← heq, List.append_assoc]) hstart
  obtain ⟨w, rfl⟩ : ∃ w, after = w ++ c := by
    rcases List.append_eq_append_iff.1 heq with ⟨w, h1, h2⟩ | ⟨w, -, h2⟩
    · have := congrArg Text.size h1
      simp only [Text.size_append] at this hstop
      omega
    · exact ⟨w, h2⟩
  refine ⟨z, w, rfl, rfl, by simp, ?_⟩
  have := congrArg Text.size heq
  simp only [Text.size_append] at this
  omega

lemma getElem?_take_map_drop {α : Type} (f : α → α) (l : List α) (n i : Nat) :
    (l.take n ++ (l.drop n).map f)[i]? = if i < n then l[i]? else l[i]?.map f := by
  rw [List.getElem?_append, List.length_take]
  split
  · next h =>
    rw [if_pos (by omega), List.getElem?_take_of_lt (by omega)]
  · next h =>
    rw [List.getElem?_map, List.getElem?_drop]
    by_cases hn : n ≤ l.length
    · rw [if_neg (by omega), show n + (i - min n l.length) = i by omega]
    · rw [List.getElem?_eq_none (by omega), List.getElem?_eq_none (by omega)]
      simp

/-- The scanner goes on where the old node started. -/
lemma Holds.resume {old : Parse} {before deleted after : Text} (inserted : Text)
    (h : old.Holds (before ++ deleted ++ after)) {xs ys : List Tree} {tree : Tree}
    (hcs : old.tree.children = xs ++ tree :: ys)
    (hstart : Text.size (Tree.textAll xs) < Text.size before) {here : Checkpoint}
    (hhere : old.checkpoints[xs.length]? = some here) : ∃ scanner,
      Scanner.resume? old.config (before ++ inserted ++ after) here.offset here.stack =
        some scanner ∧ scanner.Good ∧ scanner.diagnostics = [] ∧
      before ++ inserted ++ after = Tree.textAll xs ++ scanner.rest ∧
      scanner.offset = Text.size (Tree.textAll xs) := by
  have hoffset : here.offset = Text.size (Tree.textAll xs) := by
    rw [h.offset _ _ hhere, hcs, List.take_left]
  have hold := h.text
  rw [hcs, Tree.textAll_append, List.append_assoc before] at hold
  obtain ⟨z, -, rfl, -⟩ := Text.split_of_size_lt hold.symm hstart
  have hcut := Text.cut?_append (Tree.textAll xs) (z ++ (inserted ++ after))
  rw [← List.append_assoc, ← List.append_assoc, ← hoffset] at hcut
  rw [Scanner.resume?, hcut]
  exact ⟨_, rfl, Scanner.good_atLine _ _ _ (h.rising here (List.mem_of_getElem? hhere)), rfl,
    by simp [Scanner.atLine], hoffset⟩

/-- **The node that is read again stands for its part of the new text.** -/
lemma Holds.exchange {old p : Parse} {before deleted inserted after : Text}
    (h : old.Holds (before ++ deleted ++ after)) {xs ys : List Tree} {tree node : Tree}
    (hcs : old.tree.children = xs ++ tree :: ys)
    (hstart : Text.size (Tree.textAll xs) < Text.size before)
    (hstop : Text.size before + Text.size deleted <
      Text.size (Tree.textAll xs) + Text.size tree.text) {here next : Checkpoint}
    (hhere : old.checkpoints[xs.length]? = some here) {scanner : Scanner}
    (hresume : Scanner.resume? old.config (before ++ inserted ++ after) here.offset here.stack =
      some scanner) (htree : (item.after { scanner }).forest.trees = [node])
    (hend : (item.after { scanner }).scanner.offset = (editOf before deleted inserted).move
      (Text.size (Tree.textAll xs) + Text.size tree.text))
    (hp : exchange? old (editOf before deleted inserted) (before ++ inserted ++ after) xs.length
      here next node (item.after { scanner }).diagnostics = some p) :
    p.Holds (before ++ inserted ++ after) := by
  have hold := h.text
  rw [hcs, Tree.textAll_append, Tree.textAll_cons, ← List.append_assoc] at hold
  obtain ⟨z, w, rfl, rfl, hnew, hsize⟩ := split_edit inserted hold hstart hstop
  obtain ⟨scanner', hscanner, hgood, hsilent, hrest, hat⟩ := h.resume inserted hcs hstart hhere
  obtain rfl := Option.some.inj (hresume.symm.trans hscanner)
  rw [hnew, List.append_assoc] at hrest
  replace hrest := (List.append_cancel_left hrest).symm
  obtain ⟨h1, h2⟩ := item_text hgood hsilent htree
  -- and it ends as far from the end as the old node did
  have hmove := @move_editOf (Tree.textAll xs ++ z) deleted inserted
    (Text.size (Tree.textAll xs) + Text.size tree.text) (by simp only [Text.size_append]; omega)
  have hnode : Text.size node.text = Text.size (z ++ inserted ++ w) := by
    rw [← hend, h2, hat] at hmove
    simp only [Text.size_append]
    omega
  obtain ⟨hz, -⟩ := Text.append_inj_of_size (h1.symm.trans hrest) hnode
  obtain ⟨hroot, -, hpoints, -⟩ := exchange?_eq_some hp
  have hchildren : p.tree = .node .sourceFile (xs ++ node :: ys) := by
    rw [h.root, hcs] at hroot
    simpa [Tree.replaceChild?] using hroot.symm
  refine ⟨by rw [hchildren, Tree.children], ?_, ?_, rising_of_exchange? hp h.rising⟩
  · rw [hnew, hchildren, Tree.children, Tree.textAll_append, Tree.textAll_cons, hz,
      ← List.append_assoc]
  · intro i c hc
    rw [hpoints, getElem?_take_map_drop] at hc
    rw [hchildren, Tree.children]
    split at hc
    · next hi =>
      rw [h.offset i c hc, hcs, List.take_append_of_le_length (by omega),
        List.take_append_of_le_length (by omega)]
    · next hi =>
      obtain ⟨c, hat, rfl⟩ := Option.map_eq_some_iff.1 hc
      obtain ⟨j, rfl⟩ : ∃ j, i = xs.length + (j + 1) := ⟨i - (xs.length + 1), by omega⟩
      have hoff := h.offset _ c hat
      rw [hcs, List.take_length_add_append, List.take_succ_cons, Tree.textAll_append,
        Tree.textAll_cons] at hoff
      rw [List.take_length_add_append, List.take_succ_cons, Tree.textAll_append, Tree.textAll_cons]
      have hmove := @move_editOf (Tree.textAll xs ++ z) deleted inserted c.offset
        (by simp only [hoff, Text.size_append]; omega)
      simp only [Text.size_append] at hoff hnode hmove ⊢
      omega

/-- **Parsing again holds the new text**, whatever the old parse was made from. -/
lemma Holds.reparse {old : Parse} {t t' inserted : Text} {delete : Range} (h : old.Holds t)
    (hr : delete.start ≤ delete.stop) (ht : Text.replace? t delete inserted = some t')
    {r : Reparsed} (hp : old.reparse? (.replace delete inserted) t' = some r) :
    r.parse.Holds t' ∧ r.parse.config = old.config := by
  have hwhole : Holds (ofText old.config t') t' ∧ (ofText old.config t').config = old.config :=
    ⟨holds_ofText _ _, rfl⟩
  obtain ⟨before, deleted, after, rfl, rfl, rfl⟩ := replace?_eq_some hr ht
  change old.reparse? (editOf before deleted inserted) _ = some r at hp
  rcases reparse?_eq_some hp with heq | ⟨index, range, hedit, hchild⟩
  · rw [heq]
    exact hwhole
  · obtain ⟨xs, tree, ys, hcs, rfl, -, rfl, hstart, hstop⟩ := editedNode?_eq_some hedit
    obtain ⟨here, next, scanner, cs, h1, -, h2, h3, h4, h5⟩ := reparseChild_eq_some hchild
    rw [Nat.zero_add] at h1 h5
    simp only [Range.ofSize, Nat.zero_add, Tree.sizeAll_eq, Tree.size_eq, editOf,
      Edit.replace] at hstart hstop h4
    exact ⟨h.exchange hcs hstart hstop h1 h2 h3 h4 h5, (exchange?_eq_some h5).2.1⟩

end Parse

end DialogueScript
