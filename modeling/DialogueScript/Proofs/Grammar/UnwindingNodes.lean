import DialogueScript.Proofs.Grammar.Outside
import DialogueScript.Proofs.Grammar.Shape
import DialogueScript.Proofs.Grammar.UnwindingRules

/-!
Bodies and nodes in step. A body that has no end where the one text is over has none in front of the
title either, and behind it no block is open any more. So all children of the root are read from
both texts, except for headers that still wait for their body.
-/

set_option synthInstance.maxSize 512

namespace DialogueScript

/-- On a line that is not indented, what is left of a text with whole lines ends with a break. -/
lemma Scanner.Outside.onLine {s : Scanner} (h : s.Outside) (hterm : Text.isTerminated s.rest = true)
    (hk : (s.ahead .header).token.kind ≠ .eof) : s.OnLine := by
  rw [OnLine, ← lineTail_body s .header]
  refine Nat.pos_of_ne_zero fun hzero => hk ?_
  have hnil : s.body .header = [] :=
    Text.eq_nil_of_isTerminated (Text.isTerminated_suffix ⟨_, s.concat_leading .header⟩ hterm) hzero
  rw [h.planDone.ahead_header, content_token, hnil, Lexeme.next_nil]
  rfl

namespace ParserState

open DialogueScript.Parser

variable {c : Change} {s s' : ParserState}

/-- Both stand where a child of the root can start, or behind the last line. -/
structure Rooted (c : Change) (s s' : ParserState) : Prop where
  place : Within c s s' ∨ Closing c s s'
  outside : s.scanner.Outside

namespace Rooted

lemma of_paired (h : Paired c s s') (ho : s.scanner.Outside) : Rooted c s s' :=
  ⟨h.imp_left (·.1), ho⟩

lemma inner (h : Rooted c s s') : s.forest.inner = s'.forest.inner :=
  h.place.elim (·.agree.inner) (·.inner)

lemma complete (h : Rooted c s s') {level : List Tree} {o o' : List (List Tree)}
    (ho : s.forest.outer = level :: o) (ho' : s'.forest.outer = level :: o') (k : Kind) :
    Rooted c (s.complete k) (s'.complete k) := by
  have hf : (s.forest.complete k).inner = (s'.forest.complete k).inner := by
    simp [Forest.complete, ho, ho', Forest.trees, h.inner]
  exact ⟨h.place.imp (·.setForest hf) (·.setForest hf), h.outside⟩

end Rooted

/-- Outside of a body, the one text is over and the other goes on with the title. -/
lemma Closing.kindAt_header (h : Closing c s s') (hc : c.Titled) (ho : s.scanner.Outside) :
    s.kindAt .header = .eof ∧ s'.kindAt .header = .titleKw := by
  have hdone : s'.scanner.PlanDone := h.ending.alike.planDone ho.planDone
  have hstart' : s'.scanner.lineStart = true :=
    h.ending.alike.lineStart.symm.trans h.ending.lineStart
  have hcontent : ∀ u : Scanner, u.PlanDone → u.lineStart = true →
      (u.ahead .header).token.kind = (Lexeme.next .header (contentOf u.rest)).kind := by
    intro u hu hstart
    rw [hu.ahead_header, Scanner.content_token, Scanner.body_of_lineStart u _ hstart]
    rfl
  rw [kindAt, kindAt, hcontent _ ho.planDone h.ending.lineStart, hcontent _ hdone hstart',
    h.ending.exhausted, h.ending.contentOf_eq hc.new, Lexeme.next_nil,
    Lexeme.next_of_isTitled hc.new (.inr rfl)]
  exact ⟨rfl, rfl⟩

lemma Within.mark (h : Within c s s') : Within c s.mark s'.mark :=
  ⟨⟨⟨h.agree.good.scanner, h.agree.good.silent⟩, ⟨h.agree.good'.scanner, h.agree.good'.silent⟩,
    h.agree.scanner, h.agree.inner, h.agree.found, ⟨h.agree.quiet.never, h.agree.quiet.running⟩,
    ⟨h.agree.quiet'.never, h.agree.quiet'.running⟩⟩, h.onLine, h.terminated, h.closesAll⟩

end ParserState

namespace Parser

open ParserState
open Scanner (OnLine Untouched NoBreak Anywhere)

variable {c : Change}

/-! ### Bodies -/

instance : Leads (NoBreak .header) Untouched bodyHead := by
  unfold bodyHead
  infer_instance

lemma relates_isCancelled : Relates (Paired c) isCancelled isCancelled
    fun b s s' => b = false ∧ Paired c s s' := by
  intro s s' h
  have hanswer : ∀ u : ParserState, isCancelled.answer u = u.cancelled ∧ isCancelled.after u = u :=
    fun _ => ⟨rfl, rfl⟩
  rw [(hanswer s).1, (hanswer s').1, (hanswer s).2, (hanswer s').2, h.quiet.running,
    h.quiet'.running]
  exact ⟨rfl, rfl, h⟩

section
variable (hc : c.Titled)
include hc

/-- The end of a block that was not opened in the body is passed over in step. -/
lemma relates_strayDedent (message : String) :
    Relates (Facing c (·.kindAt .statement = .dedent) Any)
      (node .error (error .statement message >>= fun _ => advance .statement))
      (node .error (error .statement message >>= fun _ => advance .statement)) fun _ =>
        Paired c := by
  refine .node
    (.bind (S := fun _ s s' => Paired c s s' ∧ s.kindAt .statement = .dedent) ?_ fun _ => ?_)
    Rule.reads Rule.reads (fun _ h => h) fun _ h => h
  · refine .also ((relates_error hc _ _).mono (fun _ _ h => h.1) fun _ _ _ h => h) ?_
    intro s s' h
    exact (Good.kindAt_errorOf h.1.good .statement .unexpectedToken message).1.trans h.2.1
  · exact (relates_advance hc rfl).mono (fun _ _ h => ⟨h.1, h.2, trivial⟩) fun _ _ _ h => h

lemma relates_bodyStep : Relates (Facing c Any Any) bodyStep bodyStep fun _ => Paired c := by
  refine .mono (.bind (relates_statementList hc (shortens_statement maxDepth)
    (relates_statement hc maxDepth) .empty) fun _ => ?_) (fun _ _ h => h.1) fun _ _ _ h => h
  refine .bind relates_isCancelled fun b => .ite (fun _ => .pure fun _ _ h => h.2) fun _ => ?_
  refine .mono
    (.bind (relates_isAt hc Mode.isIndentSensitive_statement (by simp) (by simp)) fun b => ?_)
    (fun _ _ h => h.2) fun _ _ _ h => h
  refine .ite (fun _ => .pure fun _ _ h => h.1) fun hb => ?_
  refine .bind (S := fun _ => Paired c) ?_ fun _ => .pure fun _ _ h => h
  exact (relates_strayDedent hc _).mono (fun _ _ h => ⟨h.1, h.2 (by simpa using hb), trivial⟩)
    fun _ _ _ h => h

/-- The statements of a body end where both texts let them end. -/
lemma relates_bodyStatements : Relates (Paired c) bodyStatements bodyStatements
    fun _ s s' => Paired c s s' ∧ (s.kindAt .statement = .eof ∨ s.kindAt .statement = .bodyEnd ∨
      s.kindAt .statement = .titleKw) := by
  refine .also (Q := fun _ s => s.kindAt .statement = .eof ∨ s.kindAt .statement = .bodyEnd ∨
    s.kindAt .statement = .titleKw) ?_ ?_
  · unfold bodyStatements
    refine .bind (S := fun _ => Paired c) ?_ fun _ => .pure fun _ _ h => h
    exact (Relates.loop (fun _ => relates_bodyStep hc) advances_bodyStep advances_bodyStep ()).mono
      (fun _ _ h => ⟨h, trivial, trivial⟩) fun _ _ _ h => h
  · intro s s' h
    have hquiet := (Rule.follows bodyStatements h.good).quiet h.quiet
    exact (bodyStatements_ends h.good).resolve_left (Bool.eq_false_iff.1 hquiet.running)

/-- Behind a body no block is open, be it closed or not. -/
lemma relates_bodyClose : Relates (fun s s' => Paired c s s' ∧ (s.kindAt .statement = .eof ∨
      s.kindAt .statement = .bodyEnd ∨ s.kindAt .statement = .titleKw)) bodyClose bodyClose
    fun _ s s' => Paired c s s' ∧ s.scanner.Outside := by
  rintro s s' ⟨h, hk⟩
  have hsane := h.good.scanner.toSane
  have hstack := h.closesAll.stack_eq_empty hsane h.lineStart Mode.isIndentSensitive_statement hk
  have houtside := outside_bodyClose h.good hstack hk
  have hiff := h.kindAt_iff hc Mode.isIndentSensitive_statement (k := .bodyEnd) (by simp) (by simp)
  rw [bodyClose, after_bind, h.good.answer_eat, h.good.after_eat .statement (by simp)] at houtside
  rw [bodyClose, answer_bind, answer_bind, after_bind, after_bind, h.good.answer_eat,
    h.good'.answer_eat, h.good.after_eat .statement (by simp),
      h.good'.after_eat .statement (by simp)]
  by_cases hend : s.kindAt .statement = .bodyEnd
  · have hwithin := (h.within hc Mode.isIndentSensitive_statement (by simp [hend]) (by simp [hend])
      (by simp [hend])).1
    have htake := (Relates.stay hc (P := NoBreak .statement) (advance .statement)
      ⟨hwithin, by rw [NoBreak, ← kindAt, hend]; simp⟩).2
    rw [h.good.after_advance, h.good'.after_advance, if_neg (by simp [hend]),
      if_neg (by simp [hiff.1 hend])] at htake
    have hline := Relates.finish hc (P := Anywhere) (endOfLine .header) ⟨htake, trivial⟩
    simp only [hend, hiff.1 hend, decide_true, if_true, answer_bind, after_bind, answer_pure,
      after_pure] at houtside ⊢
    exact ⟨trivial, hline.2, houtside⟩
  · have hend' := mt hiff.2 hend
    have hlook := h.look hc Mode.isIndentSensitive_statement
    have herror := relates_error hc .missingEndMarker "expected `===`" hlook
    simp only [hend, hend', decide_false, Bool.false_eq_true, if_false, answer_bind, after_bind,
      answer_pure, after_pure] at houtside ⊢
    exact ⟨trivial, herror.2, houtside⟩

lemma relates_body : Relates (fun s s' => Within c s s' ∧ s.kindAt .header = .bodyStart) body body
    fun _ s s' => Paired c s s' ∧ s.scanner.Outside := by
  have hparts : Relates (fun s s' => Within c s s' ∧ NoBreak .header s.scanner)
      (bodyHead >>= fun _ => bodyStatements >>= fun _ => bodyClose)
      (bodyHead >>= fun _ => bodyStatements >>= fun _ => bodyClose)
      fun _ s s' => Paired c s s' ∧ s.scanner.Outside :=
    .bind (.finish hc bodyHead) fun _ => .bind (relates_bodyStatements hc) fun _ =>
      relates_bodyClose hc
  have hreads : Reading (bodyHead >>= fun _ => bodyStatements >>= fun _ => bodyClose) := Rule.reads
  rintro s s' ⟨h, hk⟩
  obtain ⟨h1, h2, h3⟩ := @hparts s.start s'.start
    ⟨h.setForest rfl, by rw [NoBreak, ← kindAt, kindAt_start, hk]; simp⟩
  have ho' := hreads.outer_start h.agree.good'
  rw [← h.agree.inner] at ho'
  have ho := hreads.outer_start h.agree.good
  rw [body, answer_node, answer_node, after_node, after_node]
  generalize (bodyHead >>= fun _ => bodyStatements >>= fun _ => bodyClose : Parser Bool) = p at *
  exact ⟨h1, h2.complete ho ho' _, h3⟩

/-! ### Nodes -/

lemma relates_nodeTail : Relates (fun s s' => Within c s s' ∧ s.scanner.Outside) nodeTail nodeTail
    fun _ => Rooted c := by
  have hlook : Relates (fun s s' => Within c s s' ∧ s.scanner.Outside) (isAt .header .bodyStart)
      (isAt .header .bodyStart) fun b s s' =>
        (Within c s s' ∧ s.scanner.Outside) ∧ (b = true → s.kindAt .header = .bodyStart) := by
    rintro s s' ⟨h, ho⟩
    obtain ⟨h1, h2, -⟩ := h.look hc .header
    rw [h.agree.good.answer_isAt, h.agree.good'.answer_isAt, h.agree.good.after_isAt,
      h.agree.good'.after_isAt, h2]
    exact ⟨rfl, ⟨h1, (flat_look .header h.agree.good ho).2⟩, by simp [h2]⟩
  refine .bind hlook fun b => .ite (fun hb => ?_) fun _ => ?_
  · refine .mono (.bind (relates_body hc) fun closed => ?_) (fun _ _ h => ⟨h.1.1, h.2 hb⟩)
      fun _ _ _ h => h
    refine .ite (fun _ => .pure ?_) fun _ => .pure ?_
    · exact fun _ _ h => .of_paired h.1 h.2
    · exact fun _ _ h => .of_paired h.1 h.2
  · refine .bind (S := fun _ => Rooted c) ?_ fun _ => .pure fun _ _ h => h
    rintro s s' ⟨⟨h, ho⟩, -⟩
    have herror := Relates.stay hc (P := Anywhere) (error .header "expected `---`") ⟨h, trivial⟩
    exact ⟨herror.1, .inl herror.2, (Flat.flat h.agree.good ho).2⟩

/-- Headers are read in step as long as they do not reach the end of the text. -/
lemma relates_nodeHeaders : Relates (fun s s' => (Within c s s' ∧ s.scanner.Outside) ∧ AtHeader s ∧
      (nodeHeaders.after s).kindAt .header ≠ .eof) nodeHeaders nodeHeaders
    fun _ s s' => Within c s s' ∧ s.scanner.Outside := by
  rintro s s' ⟨⟨h, ho⟩, hs, hk⟩
  have hg := h.agree.good
  have hf := reading_nodeHeaders.follows hg
  have houtside := (Flat.flat (p := nodeHeaders) hg ho).2
  have hterm := Text.isTerminated_suffix hf.suffix h.terminated
  have hline := houtside.onLine hterm hk
  have hs' : AtHeader s' := by rwa [AtHeader, ← (h.look hc .header).2.1]
  obtain ⟨h1, h2⟩ := matches_nodeHeaders.agree h.agree hs hs' (sees_of_unseen hc hline.unseen_pos)
  exact ⟨h1, ⟨h2, hline, hterm, (reading_nodeHeaders hg).closesAll hg h.closesAll⟩, houtside⟩

lemma rooted_dialogueNode {s s' : ParserState} (h : Within c s s') (ho : s.scanner.Outside)
    (hs : AtHeader s) (hk : (nodeHeaders.after s.start).kindAt .header ≠ .eof) :
    Rooted c (dialogueNode.after s) (dialogueNode.after s') := by
  have hstart : Within c s.start s'.start := h.setForest rfl
  obtain ⟨h1, h2⟩ := (relates_nodeHeaders hc).bind (fun _ => relates_nodeTail hc)
    ⟨⟨hstart, ho⟩, hs, hk⟩
  have houter' := reading_nodeParts.outer_start h.agree.good'
  rw [← h.agree.inner] at houter'
  have hnode :
      ∀ u, dialogueNode.after u = (nodeOf (nodeHeaders >>= fun _ => nodeTail)).after u := by
    intro u
    rw [dialogueNode, after_bind, after_pure]
  rw [hnode, hnode, after_nodeOf, after_nodeOf, ← h1]
  exact h2.complete (reading_nodeParts.outer_start h.agree.good) houter' _

/-! ### Children of the root -/

/-- A line of its own is read in step. -/
lemma rooted_line {s s' : ParserState} (p : Parser Unit) [Rule p] [Flat p]
    [Leads (NoBreak .header) Untouched p] (h : Within c s s') (ho : s.scanner.Outside)
    (hs : AtHeader s) : Rooted c (p.after s) (p.after s') :=
  .of_paired (Relates.finish hc (P := NoBreak .header) p ⟨h, hs⟩).2 (Flat.flat h.agree.good ho).2

end

/-- Without a body, what follows the headers is an error. -/
lemma nodeTail_of_ne {s : ParserState} (hg : s.Good) (hk : s.kindAt .header ≠ .bodyStart) :
    nodeTail.answer s = .error ∧
      nodeTail.after s = (error .header "expected `---`").after (s.look .header) := by
  rw [nodeTail, answer_bind, after_bind, hg.answer_isAt, hg.after_isAt, decide_eq_false hk,
    if_neg (by simp)]
  exact ⟨rfl, rfl⟩

/-- Headers that reach the end of the text wait for their body. -/
lemma waiting_of_eof {s : ParserState} (hg : s.Good)
    (hk : nodeFirst.contains (s.kindAt .header) = true)
    (heof : (nodeHeaders.after s.start).kindAt .header = .eof) {tree : Tree}
    (htree : (dialogueNode.after s).forest.inner = tree :: s.forest.inner) :
    tree.isWaiting = true ∧ (dialogueNode.after s).kindAt .header = .eof := by
  obtain ⟨tree', h1, h2, h3, h4⟩ := dialogueNode_shape hg hk
  obtain ⟨rfl, -⟩ := List.cons.inj (htree.symm.trans h1)
  have hv := (reading_nodeHeaders.follows (good_start hg)).good
  have hbody : tree.hasBody = false := by
    rw [Bool.eq_false_iff, ne_eq, h4, heof]
    simp
  refine ⟨?_, ?_⟩
  · have hkind : tree.kind = .error := h2.resolve_left (by simp [hbody])
    have hheader : tree.hasHeader = true := h3.resolve_right (by simp [hbody])
    simp [Tree.isWaiting, hkind, hheader, hbody]
  · have hlook := hv.look .header
    rw [dialogueNode, after_bind, after_pure, after_nodeOf, after_bind, kindAt_complete,
      (nodeTail_of_ne hv (by simp [heof])).2, error,
      (Good.kindAt_errorOf hlook .header .unexpectedToken "expected `---`").1, kindAt_look]
    exact heof

end Parser

namespace ParserState

open DialogueScript.Parser

variable {c : Change} {s s' : ParserState}

/-- **One child of the root in step**, unless it is headers that reach the end of the text. -/
lemma Rooted.next (h : Rooted c s s') (hc : c.Titled) (hs : s.Ready) (hk : s.kindAt .header ≠ .eof)
    {tree : Tree} (htree : s.next.forest.inner = tree :: s.forest.inner)
    (hwait : tree.isWaiting = true → s.next.kindAt .header ≠ .eof) :
    s'.kindAt .header = s.kindAt .header ∧ s'.next.forest.inner = tree :: s'.forest.inner ∧
      Rooted c s.next s'.next := by
  have hwithin : Within c s s' :=
    h.place.resolve_right fun hclosing => hk (hclosing.kindAt_header hc h.outside).1
  have hkind := (hwithin.look hc .header).2.1
  have hlook : Within c (s.mark.look .header) (s'.mark.look .header) :=
    (hwithin.mark.look hc .header).1
  have houtside : (s.mark.look .header).scanner.Outside :=
    (flat_look .header hs.good.mark h.outside).2
  have hat : AtHeader (s.mark.look .header) := AtHeader.look (s := s.mark) hs.atHeader
  have hnext : Rooted c s.next s'.next := by
    rw [ParserState.next] at htree hwait ⊢
    rw [ParserState.next, ← hkind]
    unfold child at htree hwait ⊢
    split at htree
    · next hhash =>
      rw [if_pos hhash]
      exact rooted_line hc fileHashtag hlook houtside hat
    · next hhash =>
      rw [if_neg hhash] at hwait ⊢
      split at htree
      · next hfirst =>
        rw [if_pos hfirst] at hwait ⊢
        refine rooted_dialogueNode hc hlook houtside hat fun heof => ?_
        obtain ⟨h1, h2⟩ := waiting_of_eof hlook.agree.good
          (by rwa [show (s.mark.look .header).kindAt .header = s.kindAt .header from
            kindAt_look s.mark .header]) heof htree
        exact hwait h1 h2
      · next hfirst =>
        rw [if_neg hfirst]
        exact rooted_line hc strayLine hlook houtside hat
  refine ⟨hkind.symm, ?_, hnext⟩
  rw [← hnext.inner, htree, h.inner]

end ParserState

namespace Parser

open ParserState

/-- **The children of the root in step**: what is read from a text with whole lines is read from it
in front of a title, unless its last child still waits for a body. -/
lemma Siblings.unwind {c : Change} (hc : c.Titled) {s s' u : ParserState} {trees : List Tree}
    (h : Siblings s trees u) (hs : s.Ready) (hr : Rooted c s s') (hu : u.kindAt .header = .eof)
    (hlast : ∀ tree, trees.getLast? = some tree → tree.isWaiting = false) :
    ∃ u', Siblings s' trees u' ∧ Closing c u u' ∧ u.scanner.Outside := by
  induction h generalizing s' with
  | nil s =>
    have hclosing := hr.place.resolve_left fun hwithin =>
      hwithin.onLine.ne_eof hs.good.scanner .header hu
    exact ⟨s', .nil s', hclosing, hr.outside⟩
  | @cons s u tree trees hk htree hrest ih =>
    have hwait : tree.isWaiting = true → s.next.kindAt .header ≠ .eof := by
      intro hwaiting heof
      -- nothing is read behind the end of the text, so the tree is the last one
      obtain _ | ⟨hk', -, -⟩ := hrest
      · simp [hlast tree (by simp)] at hwaiting
      · exact hk' heof
    obtain ⟨h1, h2, h3⟩ := hr.next hc hs hk htree hwait
    obtain ⟨u', h4, h5⟩ := ih (hs.next hk) h3 hu fun last hl => hlast last (by
      rw [List.getLast?_cons, hl]
      rfl)
    exact ⟨u', .cons (by rwa [h1]) h2 h4, h5⟩

end Parser

end DialogueScript
