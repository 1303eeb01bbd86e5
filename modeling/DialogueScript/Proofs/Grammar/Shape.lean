import DialogueScript.Proofs.Grammar.Adds
import DialogueScript.Proofs.Grammar.Anew

/-!
What the children of the root consist of. A node has a header or a body among its children, a line
that belongs to no node has neither.
-/

set_option synthInstance.maxSize 512

namespace DialogueScript

/-- The headers of a node. -/
def Kind.isHeaderPart : Kind → Bool
  | .titleHeader | .whenHeader | .header => true
  | _ => false

namespace Tree

/-- Whether a tree has headers among its children. -/
def hasHeader (t : Tree) : Bool := t.children.any (·.kind.isHeaderPart)

/-- Whether a tree has a body among its children. -/
def hasBody (t : Tree) : Bool := t.children.any (·.kind = .body)

/-- Whether a child of the root is a node, maybe one with an error: a body that does not end, or
none at all. -/
def isNodeItem (t : Tree) : Bool :=
  (t.kind = .dialogueNode || t.kind = .error) && (t.hasHeader || t.hasBody)

/-- Whether a child of the root is some headers that wait for a body. -/
def isWaiting (t : Tree) : Bool := t.kind = .error && t.hasHeader && !t.hasBody

end Tree

namespace Parser

open ParserState

variable {α σ : Type} {P : Kind → Prop}

/-- A rule that adds only trees of some kinds to those that are there. -/
abbrev AddsOnly (P : Kind → Prop) (p : Parser α) : Prop := Adds true (fun t => P t.kind) p

lemma AddsOnly.node {k : Kind} (hk : P k) (p : Parser α) [Readable p] : AddsOnly P (node k p) where
  grown _ hg := grown_node hg hk

/-- What a loop adds behind its first step. -/
lemma AddsOnly.loop_first {step : σ → Parser (ForInStep σ)} (hr : ∀ a, Rule (step a))
    (h : ∀ a, AddsOnly P (step a)) {s : ParserState} (hg : s.Good) (a : σ) :
    ∃ ys, ((loop step a).after s).forest.inner = ys ++ ((step a).after s).forest.inner := by
  rw [Parser.after, run_loop]
  rcases hs : (step a).answer s with b | b
  · rw [run_loopUpTo_done hs]
    exact ⟨[], rfl⟩
  · rw [run_loopUpTo_yield hs]
    obtain ⟨ys, h1, -⟩ := ((Adds.loopUpTo (fun a => (hr a).reads) h s.scanner.budget b).grown
      (Rule.good (step a) hg)).inner
    exact ⟨ys, h1⟩

/-! ### Lines and headers -/

lemma addsOnly_errorLine (he : P .error) (mode : Mode) (message : String) :
    AddsOnly P (errorLine mode message) := by
  have := AddsOnly.node he (advance mode >>= fun _ => advanceLine)
  unfold errorLine skipLine
  infer_instance

lemma addsOnly_eatNewline (hn : P .newline) : AddsOnly P eatNewline := by
  have : AddsOnly P (eat .text .newline) :=
    .eat .text (fun token hk => by rwa [Tree.kind, hk]) (by simp)
  unfold eatNewline
  infer_instance

/-- What can stand among the headers of a node. -/
def isAmongHeaders (k : Kind) : Prop := k.isHeaderPart = true ∨ k = .error ∨ k = .newline

instance (titles : Nat) : AddsOnly isAmongHeaders (headerStep titles) := by
  have htitle : AddsOnly isAmongHeaders titleHeader := .node (.inl rfl) _
  have hwhen : AddsOnly isAmongHeaders whenHeader := .node (.inl rfl) _
  have hgeneric : AddsOnly isAmongHeaders genericHeader := .node (.inl rfl) _
  have hline := addsOnly_errorLine (P := isAmongHeaders) (.inr (.inl rfl)) .header
    "expected a header or `---`"
  have hbreak := addsOnly_eatNewline (P := isAmongHeaders) (.inr (.inr rfl))
  have (k : Kind) : AddsOnly isAmongHeaders (headerAt titles k) := by
    unfold headerAt
    split <;> infer_instance
  unfold headerStep
  infer_instance

instance : AddsOnly isAmongHeaders headers := by
  unfold headers
  infer_instance

/-- A node that does not start with its body starts with a header. -/
lemma headers_part {s : ParserState} (hg : s.Good) (hk : s.kindAt .header = .titleKw ∨
    s.kindAt .header = .whenKw ∨ s.kindAt .header = .ident) :
    ∃ t ∈ (headers.after s).forest.inner, t.kind.isHeaderPart = true := by
  have hadds (titles : Nat) : AddsOnly isAmongHeaders (headerStep titles) := inferInstance
  obtain ⟨ys, hys⟩ := AddsOnly.loop_first (fun _ => inferInstance) hadds hg 0
  have hlook := hg.look .header
  have hfirst : ∃ t ∈ ((headerStep 0).after s).forest.inner, t.kind.isHeaderPart = true := by
    rw [headerStep, after_bind, hg.answer_peekKind, hg.after_peekKind]
    have hnode {k : Kind} (hk : k.isHeaderPart = true) (p : Parser Unit) [Rule p] (n : Nat) :
        ∃ t ∈ ((node k p >>= fun _ => pure (ForInStep.yield n)).after
          (s.look .header)).forest.inner, t.kind.isHeaderPart = true := by
      obtain ⟨cs, hcs⟩ := Rule.inner_node p hlook k
      exact ⟨.node k cs, by rw [after_bind, after_pure, hcs]; exact List.mem_cons_self, hk⟩
    rcases hk with hk | hk | hk <;> rw [hk]
    · simp only [headerAt, lt_irrefl, if_false, titleHeader]
      exact hnode rfl _ _
    · simp only [headerAt, whenHeader]
      exact hnode rfl _ _
    · simp only [headerAt, genericHeader]
      exact hnode rfl _ _
  obtain ⟨t, ht, hkind⟩ := hfirst
  exact ⟨t, by rw [headers, hys]; exact List.mem_append_right _ ht, hkind⟩

/-! ### Children of the root -/

lemma forest_nodeHeaders {s : ParserState} (hg : s.Good) :
    (nodeHeaders.after s).forest = (headers.after (s.look .header)).forest := by
  simp only [nodeHeaders, after_bind, hg.answer_peekRange, hg.after_peekRange, after_pure]
  rcases titleProblem (headers.answer (s.look .header)) with _ | ⟨e, m⟩
  · rfl
  · rw [reportAt, after_errorAt, forest_report]

lemma answer_nodeTail {s : ParserState} (hg : s.Good) :
    (nodeTail.answer s = .dialogueNode ∧ s.kindAt .header = .bodyStart) ∨
      nodeTail.answer s = .error := by
  rw [nodeTail, answer_bind, hg.answer_isAt, hg.after_isAt]
  split
  · next hk =>
    rw [answer_bind]
    split
    · exact .inl ⟨rfl, by simpa using hk⟩
    · exact .inr rfl
  · exact .inr rfl

/-- What follows the headers adds a body where one starts, and nothing else. -/
lemma inner_nodeTail {s : ParserState} (hg : s.Good) :
    (s.kindAt .header = .bodyStart ∧ ∃ cs, (nodeTail.after s).forest.inner =
      .node .body cs :: s.forest.inner) ∨
    (s.kindAt .header ≠ .bodyStart ∧ (nodeTail.after s).forest.inner = s.forest.inner) := by
  have hlook := hg.look .header
  rw [nodeTail, after_bind, hg.answer_isAt, hg.after_isAt]
  by_cases hk : s.kindAt .header = .bodyStart
  · left
    obtain ⟨cs, hcs⟩ : ∃ cs, (body.after (s.look .header)).forest.inner =
        .node .body cs :: (s.look .header).forest.inner := by
      unfold body
      exact Rule.inner_node _ hlook .body
    rw [decide_eq_true hk, if_pos rfl, after_bind]
    refine ⟨hk, cs, ?_⟩
    split <;> rw [after_pure, hcs] <;> rfl
  · right
    rw [decide_eq_false hk, if_neg (by simp), after_bind, after_pure, error,
      (Good.errorOf_keeps hlook _ _ _).2]
    exact ⟨hk, rfl⟩

/-- What a node consists of: headers, then maybe a body. -/
lemma dialogueNode_shape {s : ParserState} (hg : s.Good)
    (hk : nodeFirst.contains (s.kindAt .header) = true) : ∃ tree : Tree,
      (dialogueNode.after s).forest.inner = tree :: s.forest.inner ∧
      ((tree.kind = .dialogueNode ∧ tree.hasBody = true) ∨ tree.kind = .error) ∧
      (tree.hasHeader = true ∨ tree.hasBody = true) ∧
      (tree.hasBody = true ↔ (nodeHeaders.after s.start).kindAt .header = .bodyStart) := by
  have hstart := good_start hg
  have hlook := hstart.look .header
  have hv := (reading_nodeHeaders.follows hstart).good
  obtain ⟨ys, hys, honly⟩ :=
    (Adds.grow true (fun t => isAmongHeaders t.kind) headers hlook).inner
  have hinner : (nodeHeaders.after s.start).forest.inner = ys := by
    rw [forest_nodeHeaders hstart, hys]
    exact List.append_nil ys
  have hpart : s.kindAt .header ≠ .bodyStart → ∃ t ∈ ys, t.kind.isHeaderPart = true := by
    intro hne
    have hfirst := nodeFirst_cases hk
    have hpart := headers_part hlook (by
      rw [kindAt_look, kindAt_start]
      rcases hfirst with h | h | h | h
      · exact .inl h
      · exact .inr (.inl h)
      · exact .inr (.inr h)
      · exact absurd h hne)
    rwa [← forest_nodeHeaders hstart, hinner] at hpart
  have hnobody : ∀ t ∈ ys, t.kind ≠ .body := by
    intro t ht hb
    rcases honly t ht with h | h | h <;> simp [hb, Kind.isHeaderPart] at h
  have hmem : ∀ (k : Kind) (u : ParserState) (p : Tree → Bool),
      (Tree.node k u.forest.trees).children.any p = u.forest.inner.any p := fun k u p => by
    rw [Tree.children, Forest.trees, List.any_reverse]
  have hbody : (Tree.node (nodeTail.answer (nodeHeaders.after s.start))
      (nodeTail.after (nodeHeaders.after s.start)).forest.trees).hasBody = true ↔
        (nodeHeaders.after s.start).kindAt .header = .bodyStart := by
    rw [Tree.hasBody, hmem]
    rcases inner_nodeTail hv with ⟨hb, cs, hcs⟩ | ⟨hb, hcs⟩ <;> rw [hcs, hinner]
    · exact iff_of_true (by simp [Tree.kind]) hb
    · refine iff_of_false ?_ hb
      simpa using hnobody
  refine ⟨.node (nodeTail.answer (nodeHeaders.after s.start))
    (nodeTail.after (nodeHeaders.after s.start)).forest.trees, ?_,
    (answer_nodeTail hv).imp_left fun h => ⟨h.1, hbody.2 h.2⟩, ?_, hbody⟩
  · rw [dialogueNode, after_bind, after_pure, after_nodeOf, reading_nodeParts.inner_complete hg,
      answer_bind, after_bind]
  · by_cases hb : s.kindAt .header = .bodyStart
    · right
      rw [hbody, kindAt, scanner_nodeHeaders hstart]
      have hlast : headers.after (s.start.look .header) = (s.start.look .header).look .header :=
        congrArg Prod.snd (run_headers_of_body hlook ((kindAt_look s.start _).trans hb))
      rw [hlast, look_look, ← kindAt, kindAt_look]
      exact hb
    · obtain ⟨t, ht, hkind⟩ := hpart hb
      left
      rw [Tree.hasHeader, hmem, List.any_eq_true]
      rcases inner_nodeTail hv with ⟨-, cs, hcs⟩ | ⟨-, hcs⟩ <;> rw [hcs, hinner]
      · exact ⟨t, List.mem_cons_of_mem _ ht, hkind⟩
      · exact ⟨t, ht, hkind⟩

/-- A line that belongs to no node has no part of one. -/
lemma strayLine_shape {s : ParserState} (hg : s.Good) : ∃ tree : Tree,
    (strayLine.after s).forest.inner = tree :: s.forest.inner ∧ tree.hasHeader = false ∧
      tree.hasBody = false := by
  have hline := addsOnly_errorLine (P := fun k => k = .error ∨ k = .newline) (.inl rfl) .header
    "expected a node header"
  have hbreak := addsOnly_eatNewline (P := fun k => k = .error ∨ k = .newline) (.inr rfl)
  have honly : AddsOnly (fun k => k = .error ∨ k = .newline)
      (errorLine .header "expected a node header" >>= fun _ => eatNewline) := inferInstance
  obtain ⟨ys, hys, hkinds⟩ := (honly.grown (good_start hg)).inner
  refine ⟨_, by rw [strayLine_eq, after_node]; exact Rule.reads.inner_complete hg _, ?_, ?_⟩
  · rw [Tree.hasHeader, Tree.children, Forest.trees, List.any_reverse, hys]
    simp only [ParserState.start, Forest.start, List.append_nil, List.any_eq_false]
    intro t ht
    rcases hkinds t ht with h | h <;> simp [h, Kind.isHeaderPart]
  · rw [Tree.hasBody, Tree.children, Forest.trees, List.any_reverse, hys]
    simp only [ParserState.start, Forest.start, List.append_nil, List.any_eq_false]
    intro t ht
    rcases hkinds t ht with h | h <;> simp [h]

end Parser

namespace ParserState

open DialogueScript.Parser

/-- **Which children of the root are nodes** shows in their trees. -/
lemma Ready.isNodeItem_next {s : ParserState} (hs : s.Ready) {tree : Tree}
    (htree : s.next.forest.inner = tree :: s.forest.inner) :
    tree.isNodeItem = nodeFirst.contains (s.kindAt .header) := by
  have hlook := hs.good.mark.look .header
  have hkind : (s.mark.look .header).kindAt .header = s.kindAt .header := kindAt_look s.mark .header
  rw [ParserState.next, child] at htree
  split at htree
  · next hh =>
    obtain ⟨cs, hcs⟩ : ∃ cs, (fileHashtag.after (s.mark.look .header)).forest.inner =
        .node .fileHashtag cs :: (s.mark.look .header).forest.inner := by
      unfold fileHashtag
      exact Rule.inner_node _ hlook _
    obtain ⟨rfl, -⟩ := List.cons.inj (htree.symm.trans hcs)
    rw [hh]
    rfl
  · split at htree
    · next hfirst =>
      obtain ⟨tree', h1, h2, h3, h4⟩ := dialogueNode_shape hlook (by rwa [hkind])
      obtain ⟨rfl, -⟩ := List.cons.inj (htree.symm.trans h1)
      rw [hfirst, Tree.isNodeItem, Bool.and_eq_true, Bool.or_eq_true, Bool.or_eq_true,
        decide_eq_true_eq, decide_eq_true_eq]
      exact ⟨h2.imp_left (·.1), h3⟩
    · next hfirst =>
      obtain ⟨tree', h1, h2, h3⟩ := strayLine_shape hlook
      obtain ⟨rfl, -⟩ := List.cons.inj (htree.symm.trans h1)
      simp [Tree.isNodeItem, h2, h3, hfirst]

end ParserState

end DialogueScript
