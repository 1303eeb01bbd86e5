import DialogueScript.Proofs.Grammar.Items

/-!
Reading the children of the root one after the other, on two texts. As long as the texts differ only
where the scanner has not looked, the same children are read from both; what was reported for them
and the checkpoints in front of them differ only in where positions are counted from.
-/

set_option synthInstance.maxSize 512

namespace DialogueScript

namespace Change

/-- A checkpoint of the one run as the other run has it. -/
def carry (c : Change) (p : Checkpoint) : Checkpoint :=
  { p with
    offset := p.offset - c.oldBase + c.newBase
    diagnostics := p.diagnostics - c.oldFound.length + c.newFound.length }

/-- The change from one state to another before the same text. -/
def between (s s' : ParserState) : Change where
  oldTail := []
  newTail := []
  oldBase := s.scanner.offset
  newBase := s'.scanner.offset
  oldFound := s.diagnostics
  newFound := s'.diagnostics

end Change

/-- A checkpoint that was made in a state or later. -/
structure Checkpoint.IsFrom (p : Checkpoint) (s : ParserState) : Prop where
  offset : s.scanner.offset ≤ p.offset
  diagnostics : s.diagnostics.length ≤ p.diagnostics

lemma Checkpoint.IsFrom.trans {p : Checkpoint} {s u : ParserState} (h : p.IsFrom u)
    (hu : u.point.IsFrom s) : p.IsFrom s :=
  ⟨le_trans hu.offset h.offset, le_trans hu.diagnostics h.diagnostics⟩

namespace ParserState

open DialogueScript.Parser

/-! ### One child -/

/-- Two states that the rules for a child of the root cannot tell apart, whatever was read
before. -/
def Abreast (c : Change) (s s' : ParserState) : Prop := Agree c s.start s'.start

/-- The state after the child of the root that starts here. -/
def next (s : ParserState) : ParserState := (child (s.kindAt .header)).after (s.mark.look .header)

/-- A child of the root can start here, and nothing can cancel it. -/
structure Ready (s : ParserState) : Prop where
  good : s.Good
  quiet : s.Quiet
  atHeader : AtHeader s

end ParserState

namespace Parser

open ParserState

/-- Every child of the root is a node, and the line is over behind a node with a body and its
end. -/
lemma child_eq_nodeOf (k : Kind) : ∃ q : Parser Kind, Reading q ∧ Matches AtHeader q AtHeader q ∧
    (∀ s, (child k).after s = (nodeOf q).after s) ∧
    ∀ s, s.Good → AtHeader s → q.answer s = .dialogueNode →
      nodeFirst.contains k = true ∧ Ended (q.after s) := by
  have hnode : ∀ (j : Kind) (p : Parser Unit), Rule p → j ≠ .dialogueNode →
      ∃ q : Parser Kind, Reading q ∧ Matches AtHeader q AtHeader q ∧
        (∀ s, (node j p).after s = (nodeOf q).after s) ∧
        ∀ s, s.Good → AtHeader s → q.answer s = .dialogueNode →
          nodeFirst.contains k = true ∧ Ended (q.after s) := by
    intro j p hp hj
    exact ⟨p >>= fun _ => pure j, Rule.reads, Rule.matches inferInstance _ _, fun _ => rfl,
      fun _ _ _ h => absurd h hj⟩
  unfold child
  split
  · exact hnode .fileHashtag _ inferInstance (by simp)
  · split
    · next hk =>
      refine ⟨_, reading_nodeParts, matches_nodeParts, fun s => ?_, fun s hg hs ha => ?_⟩
      · rw [dialogueNode]
        rfl
      · have hu := (reading_nodeHeaders.follows hg).good
        rcases nodeTail_spec hu (kindAt_nodeHeaders hg hs) with ⟨-, h⟩ | ⟨h, -⟩ | ⟨h, -⟩
        · exact ⟨hk, h⟩
        · rw [answer_bind, h] at ha
          simp at ha
        · rw [answer_bind, h] at ha
          simp at ha
    · rw [strayLine_eq]
      exact hnode .error _ inferInstance (by simp)

end Parser

namespace ParserState

open DialogueScript.Parser

variable {c : Change} {s s' u : ParserState}

section
variable (h : s.Ready)
include h

lemma Ready.follows_next : Follows s.mark s.next :=
  have hlook := Follows.look h.good.mark .header
  hlook.trans ((reading_child _).follows hlook.good)

lemma Ready.next (hk : s.kindAt .header ≠ .eof) : s.next.Ready := by
  have hf := h.follows_next
  have hquiet : s.next.Quiet := hf.quiet ⟨h.quiet.never, h.quiet.running⟩
  have hlook := h.good.mark.look .header
  have hkind : (s.mark.look .header).kindAt .header = s.kindAt .header := kindAt_look s.mark .header
  have hat := atHeader_child hlook (AtHeader.look (s := s.mark) h.atHeader) (by rwa [hkind])
  rw [hkind] at hat
  exact ⟨hf.good, hquiet, hat.resolve_left (Bool.eq_false_iff.1 hquiet.running)⟩

lemma Ready.exists_tree : ∃ tree, s.next.forest.inner = tree :: s.forest.inner := by
  obtain ⟨q, hr, -, heq, -⟩ := child_eq_nodeOf (s.kindAt .header)
  rw [ParserState.next, heq, after_nodeOf]
  exact ⟨_, hr.inner_complete (h.good.mark.look .header) _⟩

/-- A node with a body and its end is read to the end of a line. -/
lemma Ready.ended_of_node {tree : Tree} (htree : s.next.forest.inner = tree :: s.forest.inner)
    (hkind : tree.kind = .dialogueNode) :
    nodeFirst.contains (s.kindAt .header) = true ∧ Ended s.next := by
  obtain ⟨q, hr, -, heq, hq⟩ := child_eq_nodeOf (s.kindAt .header)
  have hlook := h.good.mark.look .header
  rw [ParserState.next, heq, after_nodeOf] at htree ⊢
  rw [hr.inner_complete hlook] at htree
  obtain ⟨rfl, -⟩ := List.cons.inj htree
  exact hq _ (good_start hlook) (AtHeader.look (s := s.mark) h.atHeader) hkind

/-- Where a node starts behind a child that is closed, the line of that child is over. -/
lemma Ready.ended_of_closed {tree : Tree} (hk : s.kindAt .header ≠ .eof)
    (htree : s.next.forest.inner = tree :: s.forest.inner) (hclosed : tree.isUnclosed = false)
    (hnext : nodeFirst.contains (s.next.kindAt .header) = true) : Ended s.next := by
  have hlook := h.good.mark.look .header
  have hkind : (s.mark.look .header).kindAt .header = s.kindAt .header := kindAt_look s.mark .header
  have hspec := child_spec hlook (AtHeader.look (s := s.mark) h.atHeader) (by rwa [hkind])
  rw [hkind] at hspec
  obtain ⟨-, tree', htree', hspec⟩ := hspec
  obtain ⟨rfl, -⟩ := List.cons.inj (htree.symm.trans htree')
  rcases hspec with h1 | ⟨h1, -⟩ | h1 | h1
  · exact h1
  · rw [hclosed] at h1
    simp at h1
  · rw [ParserState.next, h1] at hnext
    exact absurd hnext (by decide)
  · rw [ParserState.next, h1] at hnext
    exact absurd hnext (by decide)

end

namespace Abreast

lemma good (h : Abreast c s s') : s.Good := ⟨h.1.scanner, h.1.silent⟩

lemma good' (h : Abreast c s s') : s'.Good := ⟨h.2.scanner, h.2.silent⟩

lemma mark_left (h : Abreast c s s') : Abreast c s.mark s' :=
  ⟨⟨h.1.scanner, h.1.silent⟩, h.2, h.scanner, rfl, h.found,
    ⟨h.quiet.never, h.quiet.running⟩, h.quiet'⟩

lemma mark_right (h : Abreast c s s') : Abreast c s s'.mark :=
  ⟨h.1, ⟨h.2.scanner, h.2.silent⟩, h.scanner, rfl, h.found, h.quiet,
    ⟨h.quiet'.never, h.quiet'.running⟩⟩

lemma look (h : Abreast c s s') (hsees : (s.look .header).Sees c) :
    Abreast c (s.look .header) (s'.look .header) :=
  Agree.look h hsees

/-- The same child is read from both texts. -/
lemma child (h : Abreast c s s') (hs : AtHeader s) (hs' : AtHeader s') {k : Kind}
    (hsees : ((child k).after s).Sees c) : ∃ tree,
      ((Parser.child k).after s).forest.inner = tree :: s.forest.inner ∧
      ((Parser.child k).after s').forest.inner = tree :: s'.forest.inner ∧
      Abreast c ((Parser.child k).after s) ((Parser.child k).after s') := by
  obtain ⟨q, hr, hm, heq, -⟩ := child_eq_nodeOf k
  rw [heq, after_nodeOf] at hsees ⊢
  rw [heq, after_nodeOf]
  obtain ⟨h1, h2⟩ := hm.agree h hs hs' hsees
  refine ⟨_, hr.inner_complete h.good _, ?_, h2.setForest rfl⟩
  rw [hr.inner_complete h.good', ← h1, Forest.trees, Forest.trees, h2.inner]

lemma next (h : Abreast c s s') (hs : s.Ready) (hsees : s.next.Sees c) :
    s'.kindAt .header = s.kindAt .header ∧ ∃ tree,
      s.next.forest.inner = tree :: s.forest.inner ∧
      s'.next.forest.inner = tree :: s'.forest.inner ∧ Abreast c s.next s'.next := by
  have hlook : c.pairing.sees (s.mark.look .header).scanner :=
    (reading_child _).sees (hs.good.mark.look .header) hsees
  have hkind : s.kindAt .header = s'.kindAt .header := Agree.kindAt_eq h hlook
  have hmark := h.mark_left.mark_right.look hlook
  have hat := AtHeader.look (s := s.mark) hs.atHeader
  have hat' : AtHeader (s'.mark.look .header) := by
    rw [AtHeader, kindAt_look]
    exact fun h => hs.atHeader (hkind.trans h)
  refine ⟨hkind.symm, ?_⟩
  rw [ParserState.next, ParserState.next, ← hkind]
  exact hmark.child hat hat' hsees

/-- The checkpoints in front of the same child. -/
lemma point (h : Abreast c s s') : s'.point = c.carry s.point := by
  obtain ⟨n, h1, h2⟩ := h.scanner.offset
  obtain ⟨ds, h3, h4⟩ := h.found
  have hstack : s.scanner.stack = s'.scanner.stack := h.scanner.stack
  change s.scanner.offset = _ at h1
  change s'.scanner.offset = _ at h2
  change s.diagnostics = _ at h3
  change s'.diagnostics = _ at h4
  simp only [ParserState.point, Change.carry, h1, h2, h3, h4, hstack, List.length_append,
    List.length_map, Checkpoint.mk.injEq, true_and]
  omega

/-- Two lines that start with the same text. -/
lemma of_line (hs : s.Good) (hs' : s'.Good) (hq : s.Quiet) (hq' : s'.Quiet)
    (hline : s.scanner.lineStart = true ∧ s.scanner.line = none)
    (hline' : s'.scanner.lineStart = true ∧ s'.scanner.line = none)
    (hconfig : s.scanner.config = s'.scanner.config) (hrest : s.scanner.rest = s'.scanner.rest)
    (hstack : s.scanner.stack = s'.scanner.stack) : Abreast (.between s s') s s' := by
  refine ⟨good_start hs, good_start hs', ?_, rfl, ⟨[], by simp [Change.between, ParserState.start],
    by simp [Change.between, ParserState.start]⟩, ⟨hq.never, hq.running⟩, ⟨hq'.never, hq'.running⟩⟩
  refine ⟨hconfig, ⟨s.scanner.rest, by simp [Change.between], by simp [Change.between, hrest]⟩,
    ⟨0, rfl, rfl⟩, hstack, hline.1.trans hline'.1.symm, ?_⟩
  simp only [ParserState.start, hline.2, hline'.2]
  exact .none

end Abreast

end ParserState

namespace Parser

open ParserState

/-! ### Children in a row -/

/-- Some trees are the children of the root that stand between two states. -/
inductive Siblings : ParserState → List Tree → ParserState → Prop where
  | nil (s : ParserState) : Siblings s [] s
  | cons {s u : ParserState} {tree : Tree} {trees : List Tree} (hk : s.kindAt .header ≠ .eof)
      (htree : s.next.forest.inner = tree :: s.forest.inner) (h : Siblings s.next trees u) :
      Siblings s (tree :: trees) u

/-- What holds between the states before and after some children. -/
structure Past (s : ParserState) (trees : List Tree) (u : ParserState) : Prop where
  ready : u.Ready
  inner : u.forest.inner = trees.reverse ++ s.forest.inner
  outer : u.forest.outer = s.forest.outer
  text : u.forest.text ++ u.scanner.rest = s.forest.text ++ s.scanner.rest
  offset : u.scanner.offset + Text.size u.scanner.rest = s.scanner.offset + Text.size s.scanner.rest
  suffix : u.scanner.rest <:+ s.scanner.rest
  config : u.scanner.config = s.scanner.config
  unseen : u.scanner.unseen ≤ s.scanner.unseen
  diagnostics : s.diagnostics <+: u.diagnostics
  checkpoints : ∃ ps : List Checkpoint, ps.length = trees.length ∧
    u.checkpoints = s.checkpoints ++ ps ∧ ∀ p ∈ ps, p.IsFrom s

lemma Past.isFrom {s u : ParserState} {trees : List Tree} (h : Past s trees u) :
    u.point.IsFrom s := by
  obtain ⟨y, hy⟩ := h.suffix
  have hoff := h.offset
  rw [← hy, Text.size_append] at hoff
  refine ⟨?_, h.diagnostics.length_le⟩
  simp only [ParserState.point]
  omega

lemma Past.trans {s m u : ParserState} {xs ys : List Tree} (h : Past s xs m) (h' : Past m ys u) :
    Past s (xs ++ ys) u := by
  obtain ⟨ps, hlen, hps, hfrom⟩ := h.checkpoints
  obtain ⟨qs, hlen', hqs, hfrom'⟩ := h'.checkpoints
  refine ⟨h'.ready, by simp [h'.inner, h.inner], h'.outer.trans h.outer, h'.text.trans h.text,
    h'.offset.trans h.offset, h'.suffix.trans h.suffix, h'.config.trans h.config,
    h'.unseen.trans h.unseen, h.diagnostics.trans h'.diagnostics, ps ++ qs, by simp [hlen, hlen'],
    by simp [hqs, hps], ?_⟩
  intro p hp
  rcases List.mem_append.1 hp with hp | hp
  · exact hfrom p hp
  · exact (hfrom' p hp).trans h.isFrom

lemma Past.next {s : ParserState} {tree : Tree} (hs : s.Ready) (hk : s.kindAt .header ≠ .eof)
    (htree : s.next.forest.inner = tree :: s.forest.inner) : Past s [tree] s.next := by
  have hf := hs.follows_next
  refine ⟨hs.next hk, htree, hf.outer, hf.text, hf.offset, hf.suffix, hf.config, hf.unseen,
    hf.diagnostics, [s.point], rfl, hf.checkpoints, ?_⟩
  intro p hp
  obtain rfl := List.mem_singleton.1 hp
  exact ⟨le_rfl, le_rfl⟩

namespace Siblings

variable {c : Change} {s s' m u v : ParserState} {trees xs ys : List Tree}

lemma past (h : Siblings s trees u) (hs : s.Ready) : Past s trees u := by
  induction h with
  | nil s =>
    exact ⟨hs, rfl, rfl, rfl, rfl, List.suffix_refl _, rfl, le_rfl, List.prefix_refl _, [], rfl,
      by simp, by simp⟩
  | cons hk htree _ ih => exact (Past.next hs hk htree).trans (ih (hs.next hk))

lemma append (h : Siblings s xs m) (h' : Siblings m ys u) : Siblings s (xs ++ ys) u := by
  induction h with
  | nil s => exact h'
  | cons hk htree _ ih => exact .cons hk htree (ih h')

lemma split (h : Siblings s (xs ++ ys) u) : ∃ m, Siblings s xs m ∧ Siblings m ys u := by
  induction xs generalizing s with
  | nil => exact ⟨s, .nil s, h⟩
  | cons x xs ih =>
    obtain _ | ⟨hk, htree, h⟩ := h
    obtain ⟨m, h1, h2⟩ := ih h
    exact ⟨m, .cons hk htree h1, h2⟩

/-- There is only one way to read all children. -/
lemma unique (h : Siblings s xs u) (h' : Siblings s ys v) (hu : u.kindAt .header = .eof)
    (hv : v.kindAt .header = .eof) : xs = ys ∧ u = v := by
  induction h generalizing ys with
  | nil s =>
    obtain _ | ⟨hk, -, -⟩ := h'
    · exact ⟨rfl, rfl⟩
    · exact absurd hu hk
  | cons hk htree _ ih =>
    obtain _ | ⟨-, htree', h'⟩ := h'
    · exact absurd hv hk
    · obtain ⟨rfl, rfl⟩ := ih h' hu
      obtain ⟨rfl, -⟩ := List.cons.inj (htree.symm.trans htree')
      exact ⟨rfl, rfl⟩

/-- **The same children** are read from two texts that differ only where nothing has been looked at
behind the last of them. -/
lemma abreast (h : Siblings s trees u) (hs : s.Ready) (ha : Abreast c s s') (hsees : u.Sees c) :
    ∃ u', Siblings s' trees u' ∧ Abreast c u u' ∧ ∃ ps, u.checkpoints = s.checkpoints ++ ps ∧
      u'.checkpoints = s'.checkpoints ++ ps.map c.carry := by
  induction h generalizing s' with
  | nil s => exact ⟨s', .nil s', ha, [], by simp, by simp⟩
  | @cons s u tree trees hk htree hrest ih =>
    have hnext := hs.next hk
    obtain ⟨hkind, tree', h1, h2, h3⟩ := ha.next hs (hsees.mono (hrest.past hnext).unseen)
    obtain ⟨rfl, -⟩ := List.cons.inj (htree.symm.trans h1)
    obtain ⟨u', h4, h5, ps, h6, h7⟩ := ih hnext h3 hsees
    have hpoint := ha.point
    have hmark : s.next.checkpoints = s.checkpoints ++ [s.point] := hs.follows_next.checkpoints
    have hlook : Follows s'.mark s'.next :=
      have := Follows.look ha.good'.mark .header
      this.trans ((reading_child _).follows this.good)
    have hmark' : s'.next.checkpoints = s'.checkpoints ++ [s'.point] := hlook.checkpoints
    refine ⟨u', .cons (by rwa [hkind]) h2 h4, h5, s.point :: ps, ?_, ?_⟩
    · rw [h6, hmark]
      simp
    · rw [h7, hmark', hpoint]
      simp

end Siblings

/-! ### Going on behind a line -/

lemma Ended.newLine {s : ParserState} (h : Ended s) (hk : s.kindAt .header ≠ .eof) :
    s.scanner.lineStart = true ∧ s.scanner.line = none := by
  have hfresh := h.resolve_right hk
  simp only [Scanner.isFresh, Bool.and_eq_true, Option.isNone_iff_eq_none] at hfresh
  exact hfresh.1

/-- Where a line is over, the next token of a header depends on nothing but the text. -/
lemma Ended.ahead_same {s s' : ParserState} (hs : s.Good) (hs' : s'.Good) (he : Ended s)
    (he' : Ended s') (hrest : s.scanner.rest = s'.scanner.rest) :
    (s.scanner.ahead .header).Same (s'.scanner.ahead .header) := by
  have hrenew : ∀ u : ParserState, u.Good → Ended u →
      u.scanner.renewed.ahead .header = u.scanner.ahead .header := by
    intro u hu h
    refine Scanner.ahead_renewed ?_
      ((Scanner.Ended.atLine hu.scanner.toSane h).body .header rfl rfl)
    rcases h with h | h
    · simp only [Scanner.isFresh, Bool.and_eq_true, Option.isNone_iff_eq_none] at h
      simp [Scanner.PlanDone, h.1.2]
    · have hdone : (u.scanner.settle .header).PlanDone :=
        Scanner.planDone_of_kind hu.scanner.toSane (by simp [h, Kind.isStructural]) (by simp [h])
      rwa [Scanner.settle_of_insensitive _ rfl] at hdone
  have hcontent : ∀ u : Scanner, u.renewed.ahead .header = u.renewed.content .header := by
    intro u
    rw [Scanner.ahead, Scanner.settle_of_insensitive _ rfl,
      Scanner.scan_eq_content (by simp [Scanner.PlanDone, Scanner.renewed, Scanner.atLine])
        (by simp)]
  have hlead : s.scanner.renewed.leading .header = s'.scanner.renewed.leading .header :=
    congrArg lineTrivia hrest
  have hbody : s.scanner.renewed.body .header = s'.scanner.renewed.body .header :=
    congrArg contentOf hrest
  rw [← hrenew s hs he, ← hrenew s' hs' he', hcontent, hcontent, Scanner.content_eq_body,
    Scanner.content_eq_body, hlead, hbody]
  exact ⟨rfl, rfl, rfl, rfl⟩

/-- **Everything behind a line** is read the same wherever it stands: the children, up to the end of
the text, and what is known about them, counted from another start. -/
lemma Siblings.behind {s s' u : ParserState} {trees : List Tree} (hs : s.Ready) (hs' : s'.Ready)
    (he : Ended s) (he' : Ended s') (hconfig : s.scanner.config = s'.scanner.config)
    (hrest : s.scanner.rest = s'.scanner.rest) (hstack : s.scanner.stack = s'.scanner.stack)
    (h : Siblings s trees u) (hu : u.kindAt .header = .eof) :
    ∃ u', Siblings s' trees u' ∧ (u.scanner.ahead .header).Same (u'.scanner.ahead .header) ∧
      (∃ ds : List Diagnostic, u.diagnostics = s.diagnostics ++ ds.map (·.moved s.scanner.offset) ∧
        u'.diagnostics = s'.diagnostics ++ ds.map (·.moved s'.scanner.offset)) ∧
      ∃ ps : List Checkpoint, (∀ p ∈ ps, p.IsFrom s) ∧
        u.checkpoints ++ [u.point] = s.checkpoints ++ ps ∧
        u'.checkpoints ++ [u'.point] = s'.checkpoints ++ ps.map (Change.between s s').carry := by
  have hpast := h.past hs
  have hahead := Ended.ahead_same hs.good hs'.good he he' hrest
  by_cases hk : s.kindAt .header = .eof
  · obtain _ | ⟨hk', -, -⟩ := h
    · refine ⟨s', .nil s', hahead, ⟨[], by simp, by simp⟩, [s.point],
        by simp [hpast.isFrom], rfl, ?_⟩
      simp [ParserState.point, Change.carry, Change.between, hstack]
    · exact absurd hk hk'
  · have hk' : s'.kindAt .header ≠ .eof := by rwa [kindAt, ← hahead.token]
    have ha : Abreast (.between s s') s s' := .of_line hs.good hs'.good hs.quiet hs'.quiet
      (he.newLine hk) (he'.newLine hk') hconfig hrest hstack
    obtain ⟨u', h1, h2, ps, h3, h4⟩ := h.abreast hs ha (.inl ⟨rfl, rfl⟩)
    have hsame : (u.scanner.ahead .header).Same (u'.scanner.ahead .header) :=
      Scanner.Alike.ahead_same h2.scanner h2.good.scanner h2.good'.scanner (.inl ⟨rfl, rfl⟩)
    refine ⟨u', h1, hsame, h2.found,
      ps ++ [u.point], ?_, ?_, ?_⟩
    · obtain ⟨qs, -, hqs, hfrom⟩ := hpast.checkpoints
      obtain rfl := List.append_cancel_left (hqs.symm.trans h3)
      intro p hp
      rcases List.mem_append.1 hp with hp | hp
      · exact hfrom p hp
      · exact List.mem_singleton.1 hp ▸ hpast.isFrom
    · rw [h3, List.append_assoc]
    · rw [h4, h2.point]
      simp

/-! ### All children -/

/-- Some children of a text have been read, and the nodes among them are counted. -/
structure Reached (t : Text) (s : ParserState) (nodes : Nat) (u : ParserState) : Prop where
  whole : Whole t u
  quiet : u.Quiet
  trees : ∃ trees, Siblings s trees u ∧ ((∃ tree ∈ trees, tree.kind = .dialogueNode) → nodes ≠ 0)

namespace Reached

variable {t : Text} {s u : ParserState} {nodes : Nat}

lemma ready (h : Reached t s nodes u) : u.Ready :=
  ⟨h.whole.good, h.quiet, h.whole.atHeader.resolve_left (Bool.eq_false_iff.1 h.quiet.running)⟩

lemma poll (h : Reached t s nodes u) : poll.answer u.mark = false ∧ poll.after u.mark = u.mark :=
  Quiet.poll (s := u.mark) ⟨h.quiet.never, h.quiet.running⟩

/-- A step that goes on reads one more child, and counts it if it is a node. -/
lemma step (h : Reached t s nodes u) {nodes' : Nat}
    (hb : (itemStep nodes).answer u = .yield nodes') :
    ((itemStep nodes).after u).scanner.budget < u.scanner.budget ∧
      Reached t s nodes' ((itemStep nodes).after u) := by
  obtain ⟨hlt, hwhole⟩ := h.whole.advances hb
  refine ⟨hlt, ?_⟩
  have hr := h.ready
  rcases itemStep_cases h.whole.good nodes with ⟨-, heq, -⟩ | ⟨-, -, heq, -⟩ | ⟨-, hk, heq, hafter⟩
  · simp [heq] at hb
  · simp [heq] at hb
  · rw [h.poll.2] at hk heq hafter
    change (itemStep nodes).after u = u.next at hafter
    rw [hafter] at hwhole ⊢
    obtain ⟨trees, h1, h2⟩ := h.trees
    obtain ⟨tree, htree⟩ := hr.exists_tree
    refine ⟨hwhole, (hr.next hk).quiet, trees ++ [tree], h1.append (.cons hk htree (.nil _)), ?_⟩
    rw [hb] at heq
    obtain rfl := ForInStep.yield.inj heq
    rintro ⟨x, hx, hkind⟩
    rcases List.mem_append.1 hx with hx | hx
    · have := h2 ⟨x, hx, hkind⟩
      split <;> omega
    · obtain rfl := List.mem_singleton.1 hx
      have hfirst : nodeFirst.contains (u.mark.kindAt .header) = true :=
        (hr.ended_of_node htree hkind).1
      simp [hfirst]

end Reached

/-- **The children of the root** are read one after the other up to the end of the text. -/
lemma items_siblings {t : Text} {s : ParserState} (h : Whole t s) (hq : s.Quiet) :
    ∃ trees u, Siblings s trees u ∧ u.kindAt .header = .eof ∧ items.after s = u.mark.look .header ∧
      ((∃ tree ∈ trees, tree.kind = .dialogueNode) → items.answer s ≠ 0) := by
  obtain ⟨nodes, u, h1, h2, h3⟩ := loop_ends (I := Reached t s) (fun _ _ h _ hb => h.step hb)
    (a := 0) ⟨h, hq, [], .nil s, by simp⟩
  obtain ⟨trees, htrees, hcount⟩ := h1.trees
  refine ⟨trees, u, htrees, ?_⟩
  rcases itemStep_cases h1.whole.good nodes with ⟨hp, -, -⟩ | ⟨-, hk, heq, hafter⟩ | ⟨-, -, heq, -⟩
  · simp [h1.poll.1] at hp
  · rw [h1.poll.2] at hk hafter
    rw [heq] at h2
    rw [items, h3, hafter, ← ForInStep.done.inj h2]
    exact ⟨hk, rfl, hcount⟩
  · simp [heq] at h2

end Parser

end DialogueScript
