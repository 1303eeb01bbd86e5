import DialogueScript.Parse.Basic
import DialogueScript.Proofs.Grammar.Anew
import DialogueScript.Proofs.Grammar.Placed

/-!
A parse by the children of the root: the tree holds them and the end of the text, there is a
checkpoint in front of each, and a node can be read again from its checkpoint.
-/

namespace DialogueScript

open DialogueScript.Parser ParserState

namespace Parse

/-- The state before a text. -/
def initial (config : Config) (t : Text) : ParserState := begun config t none

lemma whole_initial (config : Config) (t : Text) : Whole t (initial config t) :=
  whole_start config t none

lemma ready_initial (config : Config) (t : Text) : (initial config t).Ready := by
  have h := whole_initial config t
  exact ⟨h.good, ⟨rfl, rfl⟩, h.atHeader.resolve_left (by simp [initial, begun])⟩

lemma within_initial (config : Config) (t : Text) : (initial config t).scanner.Within t :=
  ⟨[], rfl, rfl⟩

/-- The parse that some children of the root and the state behind them make up. -/
def assembled (config : Config) (t : Text) (trees : List Tree) (u : ParserState)
    (found : List Diagnostic) : Parse where
  tree := .node .sourceFile (trees ++ [.leaf (u.scanner.ahead .header).token])
  diagnostics := (Diagnostic.locateAll? t found).getD found
  checkpoints := u.checkpoints ++ [u.point]
  config

/-- Where some children of a text end. -/
lemma standing {config : Config} {t : Text} {trees : List Tree} {u : ParserState}
    (h : Siblings (initial config t) trees u) :
    t = Tree.textAll trees ++ u.scanner.rest ∧
      u.scanner.offset = Text.size (Tree.textAll trees) := by
  have hpast := h.past (ready_initial config t)
  have hinner : u.forest.inner = trees.reverse := by simpa [initial, begun] using hpast.inner
  have houter : u.forest.outer = [] := by simpa [initial, begun] using hpast.outer
  have htext := hpast.text
  have hoff := hpast.offset
  have hwhole : u.forest.text = Tree.textAll trees := by simp [Forest.text, hinner, houter]
  have hstart : (initial config t).forest.text = [] := rfl
  have hrest : (initial config t).scanner.rest = t := rfl
  have hzero : (initial config t).scanner.offset = 0 := rfl
  rw [hwhole, hstart, hrest, List.nil_append] at htext
  rw [hrest, hzero, ← htext, Text.size_append] at hoff
  exact ⟨htext.symm, by omega⟩

lemma error_eq_none {s : ParserState} (hg : s.Good) {mode : Mode} (hk : s.kindAt mode = .eof) :
    errorsOf (s.scanner.ahead mode) s.scanner.offset = [] := by
  have hiff := (hg.scanner.takes mode).error_iff
  have hne : (s.scanner.ahead mode).token.kind ≠ .errorToken := by
    rw [← kindAt, hk]
    simp
  cases he : (s.scanner.ahead mode).error with
  | none => simp [errorsOf, he]
  | some e => exact absurd (hiff.2 (by simp [he])) hne

/-- The error for a file without nodes is the only change at the end of the text. -/
lemma emptyFile_eq {t : Text} {s : ParserState} (hg : s.Good) (hw : s.scanner.Within t)
    (hc : s.cancelled = false) (nodes : Nat) : ∃ extra : List Diagnostic,
      (nodes ≠ 0 → extra = []) ∧ (∀ d ∈ extra, d.PlacedFrom t s.scanner.offset) ∧
        emptyFile nodes (s.look .header) =
          { s.look .header with diagnostics := s.diagnostics ++ extra } := by
  unfold emptyFile
  split
  · next hn =>
    have hle := hg.offset_le_rangeAt .header
    obtain ⟨part, a, b, rfl, hstart, -⟩ := hg.covers_rangeAt hw .header
    rw [look_look, rangeAt_look, ParserState.report, if_neg (by simpa [ParserState.look] using hc)]
    refine ⟨_, fun h => absurd hn h, ?_, rfl⟩
    intro d hd
    obtain rfl := List.mem_singleton.1 hd
    exact ⟨⟨[], a, part ++ b, by simp, hstart, hstart⟩, hle⟩
  · exact ⟨[], fun _ => rfl, by simp, by simp [ParserState.look]⟩

/-- The state in which a parse ends: the end of the text is taken behind the children. -/
def finished (u : ParserState) (extra : List Diagnostic) : ParserState :=
  ParserState.take { u.mark.look .header with diagnostics := u.diagnostics ++ extra } .header

lemma diagnostics_finished {u : ParserState} (hu : u.Good) (hk : u.kindAt .header = .eof)
    (extra : List Diagnostic) : (finished u extra).diagnostics = u.diagnostics ++ extra := by
  have hgood :
      ParserState.Good { u.mark.look .header with diagnostics := u.diagnostics ++ extra } :=
    ⟨(hu.mark.look .header).scanner, (hu.mark.look .header).silent⟩
  have hahead : (u.mark.look .header).scanner.ahead .header = u.scanner.ahead .header :=
    ahead_looking u.mark .header
  have hdiagnostics := hgood.diagnostics_take .header
  rw [error_eq_none hgood (by rw [kindAt, hahead]; exact hk), List.append_nil] at hdiagnostics
  exact hdiagnostics

/-- All children of the root are read, and then the end of the text. -/
lemma finalState_eq (config : Config) (t : Text) : ∃ trees u extra,
    Siblings (initial config t) trees u ∧ u.kindAt .header = .eof ∧
    ((∃ tree ∈ trees, tree.kind = .dialogueNode) → extra = []) ∧
    (∀ d ∈ u.diagnostics, d.Placed t) ∧ (∀ d ∈ extra, d.PlacedFrom t u.scanner.offset) ∧
    finalState config t none = finished u extra := by
  have hready := ready_initial config t
  obtain ⟨trees, u, h1, h2, h3, h4⟩ :=
    items_siblings (whole_initial config t) hready.quiet
  have hu := (h1.past hready).ready
  have hplaced :=
    (h1.placed hready (within_initial config t) (Nat.zero_le _)).all (by simp [initial, begun])
  obtain ⟨htext, hoff⟩ := standing h1
  obtain ⟨extra, h5, h6, h7⟩ := emptyFile_eq hu.good.mark ⟨_, htext, hoff⟩ hu.quiet.running
    (items.answer (initial config t))
  refine ⟨trees, u, extra, h1, h2, h5 ∘ h4, fun d hd => (hplaced d hd).placed, h6, ?_⟩
  · have hafter : finalState config t none = script.after (initial config t) := rfl
    rw [hafter, after_script (by rw [h3]; exact hu.good.mark.look .header)
      (by rw [h3]; exact hu.quiet.running), h3, h7]
    rfl

/-- **A parse is made up of the children of the root.** Only a text without nodes has a diagnostic
that belongs to none of them. -/
lemma ofText_eq (config : Config) (t : Text) : ∃ trees u extra,
    Siblings (initial config t) trees u ∧ u.kindAt .header = .eof ∧
    ((∃ tree ∈ trees, tree.kind = .dialogueNode) → extra = []) ∧
    (∀ d ∈ u.diagnostics, d.Placed t) ∧ (∀ d ∈ extra, d.PlacedFrom t u.scanner.offset) ∧
    ofText config t = assembled config t trees u (u.diagnostics ++ extra) := by
  obtain ⟨trees, u, extra, h1, h2, h3, h4, h5, hfinal⟩ := finalState_eq config t
  have hpast := h1.past (ready_initial config t)
  refine ⟨trees, u, extra, h1, h2, h3, h4, h5, ?_⟩
  have hahead : (u.mark.look .header).scanner.ahead .header = u.scanner.ahead .header :=
    ahead_looking u.mark .header
  have hinner : u.forest.inner = trees.reverse := by simpa [initial, begun] using hpast.inner
  have hcancelled : (finished u extra).cancelled = false := hpast.ready.quiet.running
  rw [ofText, withCancel, ofState, hfinal, hcancelled, diagnostics_finished hpast.ready.good h2,
    assembled, finished]
  simp only [Bool.false_eq_true, if_false, ParserState.take, Forest.add, Forest.trees, hahead]
  congr 2
  change (Tree.leaf _ :: u.forest.inner).reverse = _
  rw [hinner]
  simp

lemma ofText_eq_assembled {config : Config} {t : Text} {trees : List Tree} {u : ParserState}
    (h : Siblings (initial config t) trees u) (hu : u.kindAt .header = .eof)
    (hnode : ∃ tree ∈ trees, tree.kind = .dialogueNode) :
    ofText config t = assembled config t trees u u.diagnostics ∧
      ∀ d ∈ u.diagnostics, d.Placed t := by
  obtain ⟨trees', u', extra, h1, h2, h3, h4, -, h5⟩ := ofText_eq config t
  obtain ⟨rfl, rfl⟩ := h.unique h1 hu h2
  obtain rfl := h3 hnode
  rw [List.append_nil] at h5
  exact ⟨h5, h4⟩

/-- Where a text has ended, the last token holds what is left of it. -/
lemma text_eof {u : ParserState} (hu : u.Good) (hk : u.kindAt .header = .eof) :
    (u.scanner.ahead .header).token.fullText = u.scanner.rest := by
  have hrest := hu.rest_take .header
  have hnil : (u.take .header).scanner.rest = [] := ((hu.scanner.takes .header).of_eof hk).1
  rw [hnil, List.append_nil] at hrest
  exact hrest.symm

/-- The children of the root, with the end of the text, hold the whole text. -/
lemma textAll_children (config : Config) (t : Text) :
    Tree.textAll (ofText config t).tree.children = t := by
  obtain ⟨trees, u, extra, h1, h2, -, -, -, h5⟩ := ofText_eq config t
  have hlast := text_eof (h1.past (ready_initial config t)).ready.good h2
  obtain ⟨htext, -⟩ := standing h1
  rw [h5, assembled, Tree.children, Tree.textAll_append, Tree.textAll_cons, Tree.textAll_nil,
    List.append_nil, Tree.text, hlast, ← htext]

/-- The checkpoint in front of each child. -/
lemma checkpoint_at {config : Config} {t : Text} {xs ys : List Tree} {s u : ParserState}
    (h : Siblings (initial config t) xs s) (h' : Siblings s ys u) :
    (u.checkpoints ++ [u.point])[xs.length]? = some s.point := by
  have hpast := h.past (ready_initial config t)
  obtain ⟨qs, hlen, hqs, -⟩ := hpast.checkpoints
  have hqs : s.checkpoints = qs := by simpa [initial, begun] using hqs
  obtain _ | ⟨hk, htree, h'⟩ := h'
  · rw [hqs, ← hlen]
    simp
  · obtain ⟨ps, -, hps, -⟩ := (h'.past (hpast.ready.next hk)).checkpoints
    have hnext : s.next.checkpoints = s.checkpoints ++ [s.point] :=
      hpast.ready.follows_next.checkpoints
    rw [hps, hnext, hqs, ← hlen]
    simp

/-- **A node can be read again from its checkpoint**: a scanner that goes on at the start of a line
reads the node that is read there in passing. -/
lemma item_resumed {s : ParserState} (hs : s.Ready)
    (hline : s.scanner.lineStart = true ∧ s.scanner.line = none) {r : ParserState}
    (hr : r = { scanner := s.scanner.renewed }) :
    item.answer r = nodeFirst.contains (s.kindAt .header) ∧
      (nodeFirst.contains (s.kindAt .header) = true → ∃ tree, (item.after r).forest.trees = [tree] ∧
        s.next.forest.inner = tree :: s.forest.inner ∧
        (item.after r).scanner.offset = s.next.scanner.offset ∧
        (item.after r).scanner.stack = s.next.scanner.stack ∧
        s.next.diagnostics = s.diagnostics ++ (item.after r).diagnostics) := by
  have hgood : r.Good := hr ▸ ⟨Scanner.good_atLine _ _ _ hs.good.scanner.rising, rfl⟩
  have habreast : Abreast (.between r s) r s := by
    subst hr
    exact .of_line hgood hs.good ⟨rfl, rfl⟩ hs.quiet ⟨rfl, rfl⟩ hline rfl rfl rfl
  have hsees : ∀ u : ParserState, u.Sees (.between r s) := fun _ => .inl ⟨rfl, rfl⟩
  have hkind : r.kindAt .header = s.kindAt .header := Agree.kindAt_eq habreast (hsees _)
  have hanswer : item.answer r = nodeFirst.contains (s.kindAt .header) := by
    rw [item, answer_bind, hgood.answer_isAtAny, hkind]
    split <;> simp [*]
  refine ⟨hanswer, fun hfirst => ?_⟩
  have hat : AtHeader (r.look .header) := AtHeader.look (by rw [AtHeader, hkind]; exact hs.atHeader)
  have hafter : item.after r = (child (s.kindAt .header)).after (r.look .header) := by
    have hne : s.kindAt .header ≠ .hash := by
      intro h
      rw [h] at hfirst
      exact absurd hfirst (by decide)
    rw [item, after_bind, hgood.answer_isAtAny, hgood.after_isAtAny, hkind, hfirst, child,
      if_neg hne, if_pos hfirst]
    rfl
  obtain ⟨tree, h1, h2, h3⟩ := (habreast.mark_right.look (hsees _)).child hat
    (AtHeader.look (s := s.mark) hs.atHeader) (hsees _) (k := s.kindAt .header)
  rw [← hafter] at h1 h3
  have hforest : (r.look .header).forest.inner = [] := by rw [hr]; rfl
  refine ⟨tree, ?_, h2, ?_, h3.scanner.stack, ?_⟩
  · rw [Forest.trees, h1, hforest]
    rfl
  · obtain ⟨n, h4, h5⟩ := h3.scanner.offset
    have hbase : r.scanner.offset = s.scanner.offset := by rw [hr]; rfl
    change (item.after r).scanner.offset = r.scanner.offset + n at h4
    change s.next.scanner.offset = s.scanner.offset + n at h5
    rw [h4, h5, hbase]
  · obtain ⟨ds, h4, h5⟩ := h3.found
    have hnil : r.diagnostics = [] := by rw [hr]
    have hbase : r.scanner.offset = s.scanner.offset := by rw [hr]; rfl
    change (item.after r).diagnostics = r.diagnostics ++ ds.map (·.moved r.scanner.offset) at h4
    change s.next.diagnostics = s.diagnostics ++ ds.map (·.moved s.scanner.offset) at h5
    rw [h4, h5, hnil, hbase, List.nil_append]

/-- So does one that goes on where a node starts, whatever is known of its line. -/
lemma item_renewed {s : ParserState} (hs : s.Ready)
    (hline : (s.scanner.lineStart = true ∧ s.scanner.line = none) ∨
      nodeFirst.contains (s.kindAt .header) = true) {r : ParserState}
    (hr : r = { scanner := s.scanner.renewed }) :
    item.answer r = nodeFirst.contains (s.kindAt .header) ∧
      (nodeFirst.contains (s.kindAt .header) = true → ∃ tree, (item.after r).forest.trees = [tree] ∧
        s.next.forest.inner = tree :: s.forest.inner ∧
        (item.after r).scanner.offset = s.next.scanner.offset ∧
        (item.after r).scanner.stack = s.next.scanner.stack ∧
        s.next.diagnostics = s.diagnostics ++ (item.after r).diagnostics) := by
  rcases hline with hline | hk
  · exact item_resumed hs hline hr
  · have hrenewed := item_resumed (hs.renew hk) ⟨rfl, rfl⟩ hr
    rwa [(startable_of_kind hs.good hk).kindAt_renew, hs.next_renew hk] at hrenewed

end Parse

end DialogueScript
