import DialogueScript.Parse.Basic
import DialogueScript.Proofs.Grammar.Placed
import DialogueScript.Proofs.Grammar.Unclosed

/-!
The reports of missing ends and the constructs without an end in the tree of a whole script.
-/

set_option synthInstance.maxSize 4096

namespace DialogueScript

open DialogueScript.Tree

namespace Parser

open ParserState

variable {α : Type}

/-! ### Statements and the end of a body -/

/-- No token of one kind is added, but maybe nodes that hold some. -/
abbrev AddsNo (k : Kind) (p : Parser α) : Prop := Adds true (fun t => t.isTokenOf k = false) p

instance (k j : Kind) (p : Parser α) [hr : Readable p] : AddsNo k (Parser.node j p) :=
  ⟨fun _ hg => ⟨⟨[_], hr.reads.inner_complete hg j, by simp [isTokenOf]⟩, by simp⟩⟩

instance (k : Kind) (p : Parser Kind) [hr : Readable p] : AddsNo k (nodeOf p) :=
  ⟨fun _ hg => ⟨⟨[_], hr.reads.inner_complete hg _, by simp [isTokenOf]⟩, by simp⟩⟩

lemma addsNo_eatNewline {k : Kind} (hk : k ≠ .newline) : AddsNo k eatNewline := by
  have : AddsNo k (eat .text .newline) :=
    .eat .text (fun token h => by simpa [isTokenOf, h] using hk.symm) (by simp)
  unfold eatNewline
  infer_instance

instance (k : Kind) (mode : Mode) : AddsNo k (skipLine mode) := by
  unfold skipLine
  infer_instance

instance (k : Kind) (mode : Mode) (m : String) : AddsNo k (errorLine mode m) := by
  unfold errorLine
  infer_instance

section
variable {k : Kind} (hk : k ≠ .newline) (statement : KindSet → Parser Unit)
  [∀ t, Rule (statement t)] (levels : Nat) (terminators : KindSet)
include hk

lemma addsNo_command : AddsNo k (command levels statement terminators) := by
  have := addsNo_eatNewline hk
  unfold command
  refine .seq inferInstance inferInstance fun keyword => ?_
  split
  · unfold ifStatement
    infer_instance
  · unfold onceStatement
    infer_instance
  · unfold setCommand setValue
    dsimp only
    infer_instance
  · rw [callCommand]
    infer_instance
  · unfold declareCommand
    infer_instance
  · unfold jumpCommand jumpTarget
    infer_instance
  · unfold jumpCommand jumpTarget
    infer_instance
  · unfold returnCommand
    infer_instance
  · rw [enumCommand]
    infer_instance
  · unfold strayClause
    unfold freeCommand freeText freeRest
    dsimp only
    infer_instance
  · unfold freeCommand freeText
    infer_instance

lemma addsNo_statementOf : AddsNo k (statementOf levels statement terminators) := by
  have := addsNo_eatNewline hk
  have := addsNo_command hk statement levels terminators
  have hgroup (lineGroup : Bool) : AddsNo k (group levels statement lineGroup) := by
    unfold group
    infer_instance
  unfold statementOf
  refine .seq inferInstance inferInstance fun j => ?_
  split
  · unfold block
    infer_instance
  · exact hgroup false
  · exact hgroup true
  · infer_instance
  · infer_instance
  · rw [line]
    dsimp only
    infer_instance

end

lemma addsNo_statement {k : Kind} (hk : k ≠ .newline) (levels : Nat) (terminators : KindSet) :
    AddsNo k (statement levels terminators) := by
  have := addsNo_eatNewline hk
  cases levels with
  | zero =>
    rw [statement]
    infer_instance
  | succ levels =>
    rw [statement]
    exact addsNo_statementOf hk _ _ _

instance (k : Kind) : AddsNo k nothingTaken := by
  unfold nothingTaken
  infer_instance

lemma addsNo_bodyStatements {k : Kind} (hk : k ≠ .newline) : AddsNo k bodyStatements := by
  have := addsNo_statement hk maxDepth
  have : AddsNo k (statementList (statement maxDepth) .empty) := adds_statementList _ _
  have : AddsNo k bodyStep := by
    unfold bodyStep
    infer_instance
  unfold bodyStatements
  infer_instance

/-! ### Bodies -/

/-- The end of a block that was not opened. -/
lemma tallied_strayDedent {s : ParserState} (hg : s.Good) (hk : s.kindAt .statement = .dedent) :
    ∃ t : Tree, Tallied s
      ((Parser.node .error (error .statement "unexpected end of block" >>= fun _ =>
      advance .statement)).after s) [t] ∧ t.isOpenEnum = false ∧ t.startsInError = false := by
  have hstart := good_start hg
  have herror := Rule.good (error .statement "unexpected end of block") hstart
  have hkind : ((error .statement "unexpected end of block").after s.start).kindAt .statement =
      .dedent := by
    rwa [error, (Good.kindAt_errorOf hstart ..).1, kindAt_start]
  have hadds :
    Adds false (SettledAt 0)
      (Parser.node .error (error .statement "unexpected end of block" >>= fun _ =>
      advance .statement)) := inferInstance
  obtain ⟨token, htoken, htrees⟩ : ∃ token : Token, token.kind = .dedent ∧
      ((error .statement "unexpected end of block" >>= fun _ => advance .statement).after
        s.start).forest.trees = [.leaf token] := by
    refine ⟨_, hkind, ?_⟩
    rw [after_bind, herror.after_advance, if_neg (by simp [hkind]), ParserState.take, Forest.trees,
      Forest.add, error, (Good.errorOf_keeps hstart ..).2]
    rfl
  have hinner :=
    Reading.inner_complete (p := error .statement "unexpected end of block" >>= fun _ =>
    advance .statement) Rule.reads hg .error
  rw [htrees] at hinner
  refine ⟨_, ⟨hinner, ?_⟩, by simp [isOpenEnum, isTokenOf, htoken], by simp [startsInError, htoken]⟩
  rw [(hadds.grown hg).missing rfl]
  simp [openEndsAll, openEnds, owesEnd, lacksEnd, isOpening, isTokenOf, htoken]

/-- A step over the statements of a body: what is open at its end is not followed by an error. -/
lemma tallied_bodyStep {s u : ParserState} {zs : List Tree} (hg : u.Good) (hq : u.Quiet)
    (h : Tallied s u zs) (hzs : endsInEnum zs = false) :
    (bodyStep.answer u = .done () ∧ ∃ zs, Tallied s (bodyStep.after u) zs) ∨
    (bodyStep.answer u = .yield () ∧ ∃ zs, Tallied s (bodyStep.after u) zs ∧
      endsInEnum zs = false) := by
  obtain ⟨ys, h1⟩ := counts_statementList (statement maxDepth) .empty hg hq
  have hf := Rule.follows (statementList (statement maxDepth) .empty) hg
  have hall := h.append h1 (.inl hzs)
  have hv := hf.good
  have hvq := hf.quiet hq
  rw [bodyStep, answer_bind, after_bind]
  generalize (statementList (statement maxDepth) .empty).after u = v at *
  have hcancel : isCancelled.answer v = v.cancelled ∧ isCancelled.after v = v := ⟨rfl, rfl⟩
  rw [answer_bind, after_bind, hcancel.1, hcancel.2, hvq.running, if_neg (by simp), answer_bind,
    after_bind, hv.answer_isAt, hv.after_isAt]
  by_cases hk : v.kindAt .statement = .dedent
  · obtain ⟨t, h2, h3, h4⟩ := tallied_strayDedent (hv.look .statement) (by rwa [kindAt_look])
    refine .inr ?_
    rw [decide_eq_true hk, if_neg (by simp), answer_bind, after_bind, answer_pure, after_pure]
    exact ⟨rfl, _, (hall.look .statement).append h2 (.inr (by simpa using h4)),
      by simpa [endsInEnum] using h3⟩
  · rw [decide_eq_false hk, if_pos (by simp), answer_pure, after_pure]
    exact .inl ⟨rfl, _, hall.look .statement⟩

lemma counts_bodyStatements : Counts bodyStatements := by
  intro s hg hq
  obtain ⟨_, u, ⟨h1, h2, zs, h3, h4⟩, h5, h6⟩ := loop_ends (a := ())
    (I := fun (_ : Unit) u => u.Good ∧ u.Quiet ∧ ∃ zs, Tallied s u zs ∧ endsInEnum zs = false)
    (fun a v ⟨h1, h2, zs, h3, h4⟩ b hb => by
      have hf := Rule.follows bodyStep h1
      refine ⟨(advances_bodyStep (a := a) h1 trivial hb).1, hf.good, hf.quiet h2, ?_⟩
      rcases tallied_bodyStep h1 h2 h3 h4 with ⟨h, -⟩ | ⟨-, h⟩
      · rw [h] at hb
        simp at hb
      · exact h) ⟨hg, hq, [], tallied_refl s, rfl⟩
  rw [bodyStatements, after_bind, after_pure, h6]
  rcases tallied_bodyStep h1 h2 h3 h4 with ⟨-, h⟩ | ⟨h, -⟩
  · exact h
  · rw [h] at h5
    simp at h5

/-- What stands in front of the end of a body. -/
def bodyFront : Parser Unit := bodyHead >>= fun _ => bodyStatements

lemma body_eq_front : body = Parser.node .body (bodyFront >>= fun _ => bodyClose) := by
  rw [body, bodyFront, bind_assoc]

instance : Rule bodyFront := by
  unfold bodyFront
  infer_instance

/-- No end of a body stands in front of its end. -/
lemma tallied_bodyFront {s : ParserState} (hg : s.Good) (hq : s.Quiet)
    (hk : s.kindAt .header = .bodyStart) :
    ∃ zs, Tallied s (bodyFront.after s) zs ∧ zs.any (isTokenOf .bodyEnd) = false := by
  have hhead : Adds false (SettledAt 0) bodyHead := by
    unfold bodyHead
    infer_instance
  have hcounts : Counts bodyFront :=
    Calm.bindCounts inferInstance (.of_adds 0 hhead) fun _ => counts_bodyStatements
  have hno : AddsNo .bodyEnd (endOfLine .text >>= fun _ => bodyStatements) := by
    have := addsNo_eatNewline (k := .bodyEnd) (by simp)
    have := addsNo_bodyStatements (k := .bodyEnd) (by simp)
    have : AddsNo .bodyEnd (eat .text .newline) :=
      .eat .text (fun token h => by simp [isTokenOf, h]) (by simp)
    unfold endOfLine
    infer_instance
  obtain ⟨zs, h1⟩ := hcounts hg hq
  refine ⟨zs, h1, ?_⟩
  obtain ⟨ys, h2, h3⟩ := (hno.grown (hg.take .header)).inner
  have hafter :
      bodyFront.after s = (endOfLine .text >>= fun _ => bodyStatements).after (s.take .header) := by
    rw [bodyFront, bodyHead, bind_assoc, after_bind, hg.after_advance, if_neg (by simp [hk])]
  have hzs : zs.reverse = ys ++ [.leaf (s.scanner.ahead .header).token] := by
    refine List.append_cancel_right (h1.inner.symm.trans ?_)
    rw [hafter, h2, List.append_assoc]
    rfl
  rw [← List.any_reverse, hzs, List.any_append, List.any_eq_false.2 (by simpa using h3)]
  have hleaf : (s.scanner.ahead .header).token.kind = .bodyStart := hk
  simp [isTokenOf, hleaf]

/-- The end of a body is there, or it is reported. -/
lemma tallied_bodyClose {s u : ParserState} {zs : List Tree} (hg : u.Good) (hq : u.Quiet)
    (h : Tallied s u zs) (hzs : zs.any (isTokenOf .bodyEnd) = false)
    (hk : u.kindAt .statement ≠ .errorToken) :
    ∃ cs, (bodyClose.after u).forest.inner = cs.reverse ++ s.forest.inner ∧
      ((bodyClose.answer u = true ∧ cs.any (isTokenOf .bodyEnd) = true ∧
        (bodyClose.after u).missing = s.missing + openEndsAll cs) ∨
      (bodyClose.answer u = false ∧ cs.any (isTokenOf .bodyEnd) = false ∧
        (bodyClose.after u).missing = s.missing + openEndsAll cs + 1)) := by
  rw [bodyClose, answer_bind, after_bind, hg.answer_eat, hg.after_eat .statement (by simp)]
  by_cases hend : u.kindAt .statement = .bodyEnd
  · have hadds : Adds false (SettledAt 0) (endOfLine .header) := inferInstance
    have hleaf : Tallied u (u.take .statement) [.leaf (u.scanner.ahead .statement).token] :=
      ⟨rfl, by simp [hg.missing_take, openEndsAll, openEnds, owesEnd, lacksEnd]⟩
    obtain ⟨ys, h1, -⟩ := (hadds.grown (hg.take .statement)).tallied
    have hall := h.append (hleaf.append h1 (.inl rfl)) (.inr rfl)
    have htoken : (u.scanner.ahead .statement).token.kind = .bodyEnd := hend
    rw [decide_eq_true hend, if_pos rfl, if_pos hend, answer_bind, after_bind, answer_pure,
      after_pure]
    exact ⟨_, hall.inner, .inl ⟨rfl, by simp [isTokenOf, htoken], hall.missing⟩⟩
  · have hlook := hg.look .statement
    have hmissing := missing_errorOf hlook ⟨hq.never, hq.running⟩ "expected `===`"
    rw [decide_eq_false hend, if_neg (by simp), if_neg hend, answer_bind, after_bind, answer_pure,
      after_pure, (Good.errorOf_keeps hlook ..).2]
    refine ⟨zs, h.inner, .inr ⟨rfl, hzs, ?_⟩⟩
    rw [← h.missing]
    simpa [hk] using hmissing

/-- A body: it owes its end just if that is reported. -/
lemma tallied_body {s : ParserState} (hg : s.Good) (hq : s.Quiet)
    (hk : s.kindAt .header = .bodyStart) :
    ∃ cs, (body.after s).forest.inner = .node .body cs :: s.forest.inner ∧
      ((body.answer s = true ∧ cs.any (isTokenOf .bodyEnd) = true ∧
        (body.after s).missing = s.missing + openEndsAll cs) ∨
      (body.answer s = false ∧ cs.any (isTokenOf .bodyEnd) = false ∧
        (body.after s).missing = s.missing + openEndsAll cs + 1)) := by
  have hstart := good_start hg
  have hf := Rule.follows bodyFront hstart
  have hquiet := hf.quiet (quiet_start hq)
  obtain ⟨zs, h1, h2⟩ := tallied_bodyFront hstart (quiet_start hq) hk
  have hkind : (bodyFront.after s.start).kindAt .statement ≠ .errorToken := by
    have hends := bodyStatements_ends (Rule.good bodyHead hstart)
    rw [← after_bind bodyHead (fun _ => bodyStatements), ← bodyFront] at hends
    rcases hends with h | h | h | h
    · simp [hquiet.running] at h
    all_goals simp [h]
  obtain ⟨cs, h3, h4⟩ := tallied_bodyClose hf.good hquiet h1 h2 hkind
  have hreads : Reading (bodyFront >>= fun _ => bodyClose) := Rule.reads
  have htrees : ((bodyFront >>= fun _ => bodyClose).after s.start).forest.trees = cs := by
    rw [after_bind, Forest.trees, h3]
    simp [ParserState.start, Forest.start]
  rw [body_eq_front, after_node, answer_node, hreads.inner_complete hg, htrees, missing_complete,
    answer_bind, after_bind]
  exact ⟨cs, rfl, h4⟩

/-! ### Nodes and files -/

/-- What follows the headers of a node: the node lacks its end just if that is reported. -/
lemma tallied_nodeTail {s u : ParserState} {zs : List Tree} (hg : u.Good) (hq : u.Quiet)
    (h : Tallied s u zs) (hzs : ∀ z ∈ zs, z.Settled ∧ z.kind ≠ .enumKw) :
    ∃ cs, (nodeTail.after u).forest.inner = cs.reverse ++ s.forest.inner ∧
      (nodeTail.after u).missing = s.missing +
        ((Tree.node (nodeTail.answer u) cs).lacksEnd.toNat + openEndsAll cs) ∧
      (Tree.node (nodeTail.answer u) cs).isOpenEnum = false := by
  have hlook := hg.look .header
  have henum := isOpenEnum_of_lacksEnd (lacksEnd_error hzs)
  rw [nodeTail, answer_bind, after_bind, hg.answer_isAt, hg.after_isAt]
  by_cases hk : u.kindAt .header = .bodyStart
  · obtain ⟨bs, h1, h2⟩ := tallied_body hlook ⟨hq.never, hq.running⟩ (by rwa [kindAt_look])
    have hcount : openEndsAll (zs ++ [.node .body bs]) = openEndsAll zs + openEndsAll bs := by
      rw [openEndsAll_append_of (.inr rfl)]
      simp [openEndsAll, openEnds, owesEnd, lacksEnd]
    rw [decide_eq_true hk, if_pos rfl, answer_bind, after_bind]
    refine ⟨zs ++ [.node .body bs], ?_, ?_⟩
    · split <;> rw [after_pure, h1] <;> simp [ParserState.look, h.inner]
    · rw [hcount]
      rcases h2 with ⟨ha, hend, hm⟩ | ⟨ha, hend, hm⟩ <;> rw [ha]
      · rw [if_pos rfl, after_pure, answer_pure, hm, missing_look, h.missing]
        refine ⟨?_, rfl⟩
        simp [lacksEnd]
        omega
      · rw [if_neg (by simp), after_pure, answer_pure, hm, missing_look, h.missing]
        refine ⟨?_, ?_⟩
        · simp [lacksEnd, isOpening, hend]
          omega
        · simpa [isOpenEnum, isTokenOf] using henum
  · have hsame :=
      (Adds.grow false (fun _ => False) (error .header "expected `---`") hlook).of_look.tallied_nil
    rw [decide_eq_false hk, if_neg (by simp), answer_bind, after_bind, answer_pure, after_pure]
    refine ⟨zs, hsame.inner.trans h.inner, ?_, henum⟩
    rw [lacksEnd_error hzs, hsame.missing, h.missing]
    simp [openEndsAll]

lemma calm_dialogueNode : Calm dialogueNode := by
  intro s hg hq
  have hstart := good_start hg
  have hf := reading_nodeHeaders.follows hstart
  have hadds : Adds false (SettledAt maxDepth) nodeHeaders := inferInstance
  obtain ⟨zs, h1, h2⟩ := (hadds.grown hstart).tallied
  have hkinds : ∀ z ∈ zs, z.kind ≠ .enumKw := by
    obtain ⟨ys, h3, h4⟩ := (Adds.grow true (fun t => isAmongHeaders t.kind) headers
      (hstart.look .header)).inner
    have hys : ys = zs.reverse := by
      have hinner := h1.inner
      rw [forest_nodeHeaders hstart, h3] at hinner
      exact List.append_cancel_right hinner
    intro z hz hk
    rcases h4 z (by simpa [hys] using hz) with h | h | h <;> simp [hk, Kind.isHeaderPart] at h
  obtain ⟨cs, h3, h4, h5⟩ := tallied_nodeTail hf.good (hf.quiet (quiet_start hq)) h1
    fun z hz => ⟨h2 z hz, hkinds z hz⟩
  rw [dialogueNode, after_bind, after_pure, after_nodeOf, answer_bind]
  refine ⟨[.node _ cs], tallied_complete reading_nodeParts hg ?_ ?_, by simpa [endsInEnum] using h5⟩
  · rw [after_bind, h3]
    exact List.append_nil _
  · rw [after_bind, h4, missing_start]

/-- **Each child of the root reports the ends that are missing in it.** -/
lemma calm_child (k : Kind) : Calm (child k) := by
  unfold child
  split
  · exact .of_adds maxDepth inferInstance
  · split
    · exact calm_dialogueNode
    · exact .of_adds maxDepth inferInstance

end Parser

/-! ### Whole scripts -/

namespace Located

/-- The tree right behind a place, under the same node. -/
def next? : Located → Option Tree
  | root _ => none
  | child parent index _ _ => parent.tree.children[index + 1]?

/-- A construct whose end is missing, unless it is an enum and a line that starts in an error is
right behind it. -/
def owesEnd (l : Located) : Bool := l.tree.owesEnd l.next?

mutual

lemma countP_elementsOf (l : Located) : (t : Tree) → l.tree = t →
    (elementsOf l t).countP owesEnd = l.owesEnd.toNat + t.openEnds
  | .leaf token, h => by
    have hleaf : l.owesEnd = false := by rw [owesEnd, h]; rfl
    simp [elementsOf, openEnds, hleaf]
  | .node k cs, h => by
    have hall := countP_elementsOfAll l 0 l.offset cs (by rw [h]; rfl)
    rw [elementsOf, List.countP_cons, hall, openEnds]
    cases l.owesEnd
    · simp
    · simp
      omega

lemma countP_elementsOfAll (l : Located) (index offset : Nat) : (cs : List Tree) →
    l.tree.children.drop index = cs →
      (elementsOfAll l index offset cs).countP owesEnd = openEndsAll cs
  | [], _ => by simp [elementsOfAll, openEndsAll]
  | c :: cs, h => by
    have hnext : l.tree.children[index + 1]? = cs.head? := by
      rw [← List.getElem?_drop, h, List.getElem?_cons_succ, List.head?_eq_getElem?]
    have hdrop : l.tree.children.drop (index + 1) = cs := by
      rw [← List.tail_drop, h, List.tail_cons]
    have h1 := countP_elementsOf (child l index offset c) c rfl
    have h2 := countP_elementsOfAll l (index + 1) (offset + c.size) cs hdrop
    have howes : (child l index offset c).owesEnd = c.owesEnd cs.head? := by
      rw [← hnext]
      rfl
    rw [elementsOfAll, List.countP_append, h1, h2, howes, openEndsAll]

end

lemma countP_nodes (t : Tree) (ht : t.lacksEnd = false) :
    ((root t).nodes.filter owesEnd).length = t.openEnds := by
  have hroot : (root t).owesEnd = false := by simp [owesEnd, Tree.owesEnd, tree, ht]
  have hleaf : ∀ l ∈ (root t).elements, (l.isNode && l.owesEnd) = l.owesEnd := by
    intro l _
    cases hl : l.tree with
    | leaf token => simp [owesEnd, isNode, hl, Tree.owesEnd, lacksEnd, Tree.isNode]
    | node k cs => simp [isNode, hl, Tree.isNode]
  have hcount := countP_elementsOf (root t) t rfl
  rw [hroot, Bool.toNat_false, Nat.zero_add] at hcount
  rw [nodes, List.filter_filter, ← List.countP_eq_length_filter, ← hcount]
  exact List.countP_congr fun l hl => by rw [Bool.and_comm, hleaf l hl]

end Located

open DialogueScript.Parser ParserState

namespace Parse

lemma tallied_finalState (config : Config) (t : Text) :
    (finalState config t none).missing = openEndsAll (finalState config t none).forest.trees := by
  obtain ⟨zs, h1, -⟩ := (whole_start config t none).keeps_script ⟨rfl, rfl⟩
    (I := fun u => ∃ zs, Tallied (begun config t none) u zs ∧ endsInEnum zs = false)
    ⟨[], tallied_refl _, rfl⟩ (fun u ⟨zs, h1, h2⟩ => ⟨zs, ⟨h1.inner, h1.missing⟩, h2⟩)
    (fun u hg hq _ ⟨xs, h1, h2⟩ => by
      obtain ⟨ys, h3, h4⟩ := calm_child (u.kindAt .header) hg hq
      exact ⟨xs ++ ys, h1.append h3 (.inl h2), endsInEnum_append h2 h4⟩)
    (fun u range ⟨xs, h1, h2⟩ => ⟨xs, ⟨by rw [forest_report]; exact h1.inner,
      (missing_report (u.look .header) range (by simp) _).trans h1.missing⟩, h2⟩)
    fun u hg ⟨xs, h1, h2⟩ => by
      have hleaf : Tallied u (u.take .header) [.leaf (u.scanner.ahead .header).token] :=
        ⟨rfl, by simp [hg.missing_take, openEndsAll, openEnds, owesEnd, lacksEnd]⟩
      exact ⟨_, h1.append hleaf (.inl h2), by simp [endsInEnum, isOpenEnum]⟩
  have htrees : (finalState config t none).forest.trees = zs := by
    have hinner : (finalState config t none).forest.inner = zs.reverse ++ [] := h1.inner
    simp [Forest.trees, hinner]
  have hmissing : (finalState config t none).missing = 0 + openEndsAll zs := h1.missing
  rw [htrees, hmissing, Nat.zero_add]

/-- **Each construct whose end is missing is reported once**: the reports of missing ends are as
many as the nodes, chains and enums in the tree that lack their end, without the enums that are
followed by a line that starts in an error. -/
theorem missing_ends (config : Config) (t : Text) :
    ((ofText config t).diagnostics.filter (·.problem = .grammar .missingEndMarker)).length =
      ((ofText config t).root.nodes.filter (·.owesEnd)).length := by
  have hbare (ds : List Diagnostic) : ds.countP (·.problem = .grammar .missingEndMarker) =
      (ds.map Diagnostic.bare).countP (·.problem = .grammar .missingEndMarker) := by
    rw [List.countP_map]
    rfl
  have hlocated : (ofText config t).diagnostics.countP (·.problem = .grammar .missingEndMarker) =
      (finalState config t none).missing := by
    rw [ParserState.missing, hbare, hbare (finalState config t none).diagnostics]
    exact congrArg _ (Diagnostic.map_bare_located t _)
  rw [← List.countP_eq_length_filter, hlocated, tallied_finalState]
  exact (Located.countP_nodes (.node .sourceFile (finalState config t none).forest.trees) rfl).symm

/-- An enum that ends at an error token: its end is missing, and no report says so. -/
theorem silent_open_enum :
    ((ofText {} "title: A\n---\n<<enum E>>\n<<case a>>\n\x7d x\n===\n".toList).diagnostics.filter
      (·.problem = .grammar .missingEndMarker)).length = 0 ∧
    ((ofText {} "title: A\n---\n<<enum E>>\n<<case a>>\n\x7d x\n===\n".toList).root.nodes.filter
      (·.tree.lacksEnd)).length = 1 := by
  decide +kernel

end Parse

end DialogueScript
