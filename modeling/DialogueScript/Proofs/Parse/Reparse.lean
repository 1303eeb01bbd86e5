import DialogueScript.Parse.Reparse
import DialogueScript.Proofs.Parse.Children

/-!
Parsing again after an edit gives what parsing the new text gives, as long as the child in front of
the edited node is closed, or the edit does not touch the first line of the node. Then nothing
before the node depends on the edit, the node itself is read from its checkpoint as it is read in
passing, and everything behind it is read as before.
-/

namespace DialogueScript

open DialogueScript.Parser ParserState

/-- Whether a text goes on behind its first line. Lines that are skipped do not count. -/
def Text.passesLine (t : Text) : Bool := 1 < Text.lineTail (contentOf t)

/-- What stands behind the line in view, and behind its break, is not looked at. -/
lemma Scanner.lt_beyond_of_passesLine {s : Scanner} {z v : Text} (hrest : s.rest = z ++ v)
    (hz : z.passesLine = true) : v.length + 1 < s.beyond := by
  have hz : 1 < Text.lineTail (contentOf z) := of_decide_eq_true hz
  have hcontent : contentOf (z ++ v) = contentOf z ++ v := by
    have htrivia := (@lineTrivia_eq z [] v (.inl (by simpa using hz))).1
    rw [List.append_nil] at htrivia
    have hwhole := concat_lineTrivia (z ++ v)
    have hz := concat_lineTrivia z
    rw [← htrivia] at hwhole
    refine List.append_cancel_left (hwhole.trans ?_)
    rw [← List.append_assoc, hz]
  have htail : Text.lineTail (contentOf z ++ v) = Text.lineTail (contentOf z) + v.length := by
    have hne : ((contentOf z).dropWhile (!isLineBreak ·)).isEmpty = false := by
      rw [Text.lineTail] at hz
      exact List.isEmpty_eq_false_iff.2 (List.length_pos_iff.1 (by omega))
    rw [Text.lineTail, List.dropWhile_append, hne, if_neg (by simp), List.length_append,
      Text.lineTail]
  have hle := lineTail_contentOf_le s.rest
  rw [hrest, hcontent, htail] at hle
  unfold Scanner.beyond
  split
  · rw [hrest, hcontent, htail]
    omega
  · rw [hrest]
    omega

namespace Parse

/-! ### An edit inside a node -/

/-- The children of a text of which one is a node that a part of the text lies strictly inside of:
the children `xs` lead to the state `s`, where the node `tree` starts, and the children `ys` behind
it lead to the end `u` of the text. -/
structure Hit (config : Config) (before deleted after : Text) (xs : List Tree) (s : ParserState)
    (tree : Tree) (ys : List Tree) (u : ParserState) : Prop where
  earlier : Siblings (initial config (before ++ deleted ++ after)) xs s
  running : s.kindAt .header ≠ .eof
  read : s.next.forest.inner = tree :: s.forest.inner
  later : Siblings s.next ys u
  stop : u.kindAt .header = .eof
  kind : tree.kind = .dialogueNode
  apart : Ended s ∨ (deleted ++ after).length + 1 < s.scanner.beyond
  start_lt : Text.size (Tree.textAll xs) < Text.size before
  lt_stop : Text.size before + Text.size deleted <
    Text.size (Tree.textAll xs) + Text.size tree.text

namespace Hit

variable {config : Config} {before deleted after : Text} {xs ys : List Tree} {s u : ParserState}
  {tree : Tree} (h : Hit config before deleted after xs s tree ys u)
include h

lemma siblings_next :
    Siblings (initial config (before ++ deleted ++ after)) (xs ++ [tree]) s.next :=
  h.earlier.append (.cons h.running h.read (.nil _))

lemma ready : s.Ready := (h.earlier.past (ready_initial _ _)).ready

/-- What lies before the edit reaches into the node. -/
lemma split_before : ∃ z, z ≠ [] ∧ before = Tree.textAll xs ++ z ∧
    s.scanner.rest = z ++ (deleted ++ after) := by
  obtain ⟨htext, -⟩ := standing h.earlier
  rw [List.append_assoc] at htext
  exact Text.split_of_size_lt htext h.start_lt

/-- What lies behind the node lies behind the edit. -/
lemma suffix_after : s.next.scanner.rest <:+ after := by
  have hlt := h.lt_stop
  obtain ⟨htext, -⟩ := standing h.siblings_next
  rw [Tree.textAll_append, Tree.textAll_cons, Tree.textAll_nil, List.append_nil] at htext
  rcases List.append_eq_append_iff.1 htext with ⟨z, h1, h2⟩ | ⟨z, h1, h2⟩
  · exact ⟨z, h2.symm⟩
  · have := congrArg Text.size h1
    simp only [Text.size_append] at this
    omega

/-- **Before the node** the new text is read as the old one. -/
lemma earlier_same (inserted : Text) : ∃ s',
    Siblings (initial config (before ++ inserted ++ after)) xs s' ∧ s'.Ready ∧
      ((s'.scanner.lineStart = true ∧ s'.scanner.line = none) ∨
        nodeFirst.contains (s'.kindAt .header) = true) ∧
      s'.point = s.point ∧ s'.diagnostics = s.diagnostics ∧ s'.checkpoints = s.checkpoints := by
  obtain ⟨z, hz, hbefore, hrest⟩ := h.split_before
  let c : Change := ⟨deleted ++ after, inserted ++ after, 0, 0, [], []⟩
  have hcarry : ∀ p, c.carry p = p := fun p => by simp [c, Change.carry]
  have hbegin : Abreast c (initial config (before ++ deleted ++ after))
      (initial config (before ++ inserted ++ after)) :=
    ⟨good_start (ready_initial _ _).good, good_start (ready_initial _ _).good,
      ⟨rfl, ⟨before, by simp [c, initial, begun, Scanner.start, Scanner.atLine, ParserState.start],
        by simp [c, initial, begun, Scanner.start, Scanner.atLine, ParserState.start]⟩,
        ⟨0, rfl, rfl⟩, rfl, rfl, .none⟩, rfl,
      ⟨[], by simp [c, initial, begun, ParserState.start],
        by simp [c, initial, begun, ParserState.start]⟩,
      ⟨rfl, rfl⟩, ⟨rfl, rfl⟩⟩
  have hsees : s.Sees c := by
    refine .inr (.inl ?_)
    rcases h.apart with hended | hbeyond
    · have hpos := List.length_pos_iff.2 hz
      rw [Scanner.unseen, hended.resolve_right h.running, if_pos rfl, hrest]
      simp only [c, List.length_append]
      omega
    · exact lt_of_lt_of_le hbeyond s.scanner.beyond_le_unseen
  obtain ⟨s', h1, h2, ps, h3, h4⟩ := h.earlier.abreast (ready_initial _ _) hbegin hsees
  have hs' := (h1.past (ready_initial _ _)).ready
  refine ⟨s', h1, hs', ?_, h2.point.trans (hcarry _), ?_, ?_⟩
  · rcases h.apart with hended | hbeyond
    · obtain ⟨h5, h6⟩ := hended.newLine h.running
      exact .inl ⟨h2.scanner.lineStart.symm.trans h5, Scanner.Alike.line_of_none h2.scanner h6⟩
    · -- the edit lies behind the line on which the node starts, so the same token stands there
      have hlook : (s.look .header).Sees c := by
        refine .inr (.inl ?_)
        rwa [ParserState.look, Scanner.unseen_looking, Scanner.settle_of_insensitive _ rfl]
      have hkind : s.kindAt .header = s'.kindAt .header := Agree.kindAt_eq h2 hlook
      exact .inr (hkind ▸ (h.ready.ended_of_node h.read h.kind).1)
  · obtain ⟨ds, h5, h6⟩ := h2.found
    exact h6.trans h5.symm
  · rw [h4, h3, List.map_congr_left (fun p _ => hcarry p), List.map_id']
    rfl

/-- **Behind the node** the new text is read as the old one, if the node ends at the same place of
the text and with the same blocks open. -/
lemma later_same {inserted : Text} {s' : ParserState} {tree' : Tree}
    (hs' : Siblings (initial config (before ++ inserted ++ after)) xs s')
    (hk : s'.kindAt .header ≠ .eof) (hread : s'.next.forest.inner = tree' :: s'.forest.inner)
    (hkind : tree'.kind = .dialogueNode)
    (hoff : (s'.next.scanner.offset : Int) =
      s.next.scanner.offset + (Text.size inserted - Text.size deleted))
    (hstack : s'.next.scanner.stack = s.next.scanner.stack) : ∃ u',
      Siblings (initial config (before ++ inserted ++ after)) (xs ++ tree' :: ys) u' ∧
      u'.kindAt .header = .eof ∧ (u.scanner.ahead .header).Same (u'.scanner.ahead .header) ∧
      (∃ ds : List Diagnostic,
        u.diagnostics = s.next.diagnostics ++ ds.map (·.moved s.next.scanner.offset) ∧
        u'.diagnostics = s'.next.diagnostics ++ ds.map (·.moved s'.next.scanner.offset)) ∧
      ∃ ps : List Checkpoint, (∀ p ∈ ps, p.IsFrom s.next) ∧
        u.checkpoints ++ [u.point] = s.next.checkpoints ++ ps ∧
        u'.checkpoints ++ [u'.point] =
          s'.next.checkpoints ++ ps.map (Change.between s.next s'.next).carry := by
  have hready' := (hs'.past (ready_initial _ _)).ready
  have hnext' := hs'.append (.cons hk hread (.nil _))
  obtain ⟨htext, hsize⟩ := standing h.siblings_next
  obtain ⟨htext', hsize'⟩ := standing hnext'
  have hconfig := (h.siblings_next.past (ready_initial _ _)).config
  have hconfig' := (hnext'.past (ready_initial _ _)).config
  have hrest : s.next.scanner.rest = s'.next.scanner.rest := by
    obtain ⟨y, hy⟩ := h.suffix_after
    have h1 := congrArg Text.size htext
    have h2 := congrArg Text.size htext'
    rw [Text.size_append (Tree.textAll _), ← hsize] at h1
    rw [Text.size_append (Tree.textAll _), ← hsize'] at h2
    rw [← hy] at htext' h2
    rw [← List.append_assoc] at htext'
    refine (Text.append_inj_of_size htext' ?_).2
    simp only [Text.size_append, ← hsize', ← hy] at h1 h2 ⊢
    omega
  obtain ⟨u', h1, h2, h3, h4⟩ := h.later.behind (h.ready.next h.running) (hready'.next hk)
    (h.ready.ended_of_node h.read h.kind).2 (hready'.ended_of_node hread hkind).2
    (hconfig.trans hconfig'.symm) hrest hstack.symm h.stop
  refine ⟨u', hs'.append (.cons hk hread h1), ?_, h2, h3, h4⟩
  rw [kindAt, ← h2.token]
  exact h.stop

end Hit

/-! ### Moving what was found -/

lemma editedNode?_eq_some {e : Edit} {index offset i : Nat} {r : Range} {cs : List Tree}
    (h : editedNode? e index offset cs = some (i, r)) : ∃ xs tree ys, cs = xs ++ tree :: ys ∧
      i = index + xs.length ∧ tree.kind = .dialogueNode ∧
      r = .ofSize (offset + Tree.sizeAll xs) tree.size ∧ r.start < e.delete.start ∧
      e.delete.stop < r.stop := by
  induction cs generalizing index offset with
  | nil => simp [editedNode?] at h
  | cons c cs ih =>
    rw [editedNode?] at h
    split at h
    · next hc =>
      simp only [Bool.and_eq_true, decide_eq_true_eq] at hc
      obtain ⟨rfl, rfl⟩ := by simpa using h
      exact ⟨[], c, cs, rfl, rfl, hc.1.1, by simp [Tree.sizeAll], hc.1.2, hc.2⟩
    · obtain ⟨xs, tree, ys, rfl, h1, h2, h3, h4, h5⟩ := ih h
      refine ⟨c :: xs, tree, ys, rfl, by simp [h1]; omega, h2, ?_, h4, h5⟩
      rw [h3, Tree.sizeAll]
      simp [Range.ofSize, Nat.add_assoc]

/-- A diagnostic is moved without being held at a bound, if it stays within positions. -/
lemma shift?_eq_some {d : Diagnostic} {delta : Int} (start stop : Nat)
    (hle : d.range.start ≤ d.range.stop) (hstart : (start : Int) = d.range.start + delta)
    (hstop : (stop : Int) = d.range.stop + delta) (hmax : stop ≤ Diagnostic.maxPosition) :
    d.shift? delta = some { d with range := ⟨start, stop⟩ } := by
  have hmod : Int.bmod (d.range.start + delta) Diagnostic.wordCount = start := by
    simp only [Diagnostic.maxPosition] at hmax
    rw [← hstart]
    refine Int.bmod_eq_of_le ?_ ?_ <;> simp only [Diagnostic.wordCount] <;> omega
  simp only [Diagnostic.shift?, hmod, Int.toNat_natCast, Range.size]
  rw [if_pos (by omega), min_eq_right (by omega), Range.ofSize]
  congr 3
  omega

lemma shift?_moved {d x : Diagnostic} {b b' : Nat} {delta : Int} (hd : d.bare = (x.moved b).bare)
    (hb : (b' : Int) = b + delta) (hx : x.range.start ≤ x.range.stop)
    (hmax : b' + x.range.stop ≤ Diagnostic.maxPosition) :
    ∃ d', d.shift? delta = some d' ∧ d'.bare = (x.moved b').bare := by
  obtain ⟨problem, message, range, start, stop⟩ := d
  simp only [Diagnostic.bare, Diagnostic.moved, Diagnostic.mk.injEq, and_true] at hd
  obtain ⟨rfl, rfl, rfl⟩ := hd
  exact ⟨_, shift?_eq_some (b' + x.range.start) (b' + x.range.stop) (by simpa using hx)
    (by push_cast; omega) (by push_cast; omega) hmax, rfl⟩

lemma mapM_shift? {ls xs : List Diagnostic} {b b' : Nat} {delta : Int}
    (hls : ls.map Diagnostic.bare = (xs.map (·.moved b)).map Diagnostic.bare)
    (hb : (b' : Int) = b + delta) (hx : ∀ x ∈ xs, x.range.start ≤ x.range.stop ∧
      b' + x.range.stop ≤ Diagnostic.maxPosition) :
    ∃ later, ls.mapM (·.shift? delta) = some later ∧
      later.map Diagnostic.bare = (xs.map (·.moved b')).map Diagnostic.bare := by
  induction xs generalizing ls with
  | nil =>
    obtain rfl : ls = [] := by simpa using hls
    exact ⟨[], rfl, rfl⟩
  | cons x xs ih =>
    obtain ⟨d, ls, rfl⟩ : ∃ d ls', ls = d :: ls' :=
      List.exists_cons_of_ne_nil (by rintro rfl; simp at hls)
    simp only [List.map_cons, List.cons.injEq] at hls
    obtain ⟨d', h1, h2⟩ :=
      shift?_moved hls.1 hb (hx x List.mem_cons_self).1 (hx x List.mem_cons_self).2
    obtain ⟨later, h3, h4⟩ := ih hls.2 fun y hy => hx y (List.mem_cons_of_mem _ hy)
    exact ⟨d' :: later, by simp [List.mapM_cons, h1, h3], by simp [h2, h4]⟩

/-! ### The exchange -/

/-- The edit that puts `inserted` in the place of `deleted`. -/
def editOf (before deleted inserted : Text) : Edit :=
  .replace (.ofSize (Text.size before) (Text.size deleted)) inserted

lemma delta_editOf (before deleted inserted : Text) :
    (editOf before deleted inserted).delta = Text.size inserted - Text.size deleted := by
  simp [editOf, Edit.replace, Edit.delta, Range.size, Range.ofSize]

/-- A position behind an edit is moved without being held at zero. -/
lemma move_editOf {before deleted : Text} (inserted : Text) {n : Nat}
    (h : Text.size before + Text.size deleted ≤ n) :
    ((editOf before deleted inserted).move n : Int) =
      n + (Text.size inserted - Text.size deleted) := by
  rw [Edit.move, delta_editOf]
  omega

namespace Hit

variable {config : Config} {before deleted after : Text} {xs ys : List Tree} {s u : ParserState}
  {tree : Tree} (h : Hit config before deleted after xs s tree ys u)
include h

lemma next_le : Text.size before + Text.size deleted ≤ s.next.scanner.offset := by
  have hlt := h.lt_stop
  have hsize := (standing h.siblings_next).2
  rw [Tree.textAll_append, Text.size_append, Tree.textAll_cons, Tree.textAll_nil,
    List.append_nil] at hsize
  omega

/-- **The exchange of one node** for the one that is read in its place gives the parse of the new
text. -/
lemma exchange {inserted : Text} {ls : List Diagnostic}
    (hls : ls.map Diagnostic.bare = u.diagnostics.map Diagnostic.bare)
    (hmax : Text.size (before ++ inserted ++ after) ≤ Diagnostic.maxPosition)
    {s' : ParserState} {tree' : Tree} {found : List Diagnostic}
    (hs' : Siblings (initial config (before ++ inserted ++ after)) xs s')
    (hk : s'.kindAt .header ≠ .eof) (hread : s'.next.forest.inner = tree' :: s'.forest.inner)
    (hkind : tree'.kind = .dialogueNode) (hpoint : s'.point = s.point)
    (hsame : s'.diagnostics = s.diagnostics) (hpoints : s'.checkpoints = s.checkpoints)
    (hfound : s'.next.diagnostics = s'.diagnostics ++ found)
    (hoff : s'.next.scanner.offset = (editOf before deleted inserted).move s.next.scanner.offset)
    (hstack : s'.next.scanner.stack = s.next.scanner.stack) :
    exchange?
      { tree := .node .sourceFile (xs ++ tree :: ys ++ [.leaf (u.scanner.ahead .header).token])
        diagnostics := ls, checkpoints := u.checkpoints ++ [u.point], config }
      (editOf before deleted inserted) (before ++ inserted ++ after) xs.length s.point s.next.point
      tree' found = some (ofText config (before ++ inserted ++ after)) := by
  have hmove := move_editOf inserted h.next_le
  rw [← hoff] at hmove
  obtain ⟨u', h1, h2, h3, ⟨ds, h4, h5⟩, ps, h6, h7, h8⟩ :=
    h.later_same hs' hk hread hkind hmove hstack
  obtain ⟨hparse, hplaced⟩ := ofText_eq_assembled h1 h2 ⟨tree', by simp, hkind⟩
  obtain ⟨located, hlocated, -⟩ := Diagnostic.locateAll?_of_placed hplaced
  -- what was found behind the node is moved with it
  obtain ⟨later, hlater, hbare⟩ : ∃ later : List Diagnostic,
      (ls.drop s.next.diagnostics.length).mapM (·.shift? (editOf before deleted inserted).delta) =
        some later ∧ later.map Diagnostic.bare =
          (ds.map (·.moved s'.next.scanner.offset)).map Diagnostic.bare := by
    refine mapM_shift? (b := s.next.scanner.offset) (by rw [List.map_drop, hls, h4]; simp)
      (by rw [delta_editOf]; exact hmove) ?_
    intro x hx
    obtain ⟨part, a, b, ht, hstart, hstop⟩ := hplaced (x.moved s'.next.scanner.offset)
      (by rw [h5]; exact List.mem_append_right _ (List.mem_map_of_mem hx))
    have := congrArg Text.size ht
    simp only [Diagnostic.moved, Text.size_append] at hstart hstop this hmax
    omega
  have hdiagnostics : Diagnostic.locateAll? (before ++ inserted ++ after)
      (ls.take s.diagnostics.length ++ found ++ later) = some located := by
    rw [← hlocated]
    refine Diagnostic.locateAll?_congr ?_
    obtain ⟨more, hmore⟩ : s.diagnostics <+: s.next.diagnostics := h.ready.follows_next.diagnostics
    have htake : (ls.take s.diagnostics.length).map Diagnostic.bare =
        s.diagnostics.map Diagnostic.bare := by
      rw [List.map_take, hls, h4, ← hmore]
      simp
    simp only [List.map_append, htake, hbare, h5, hfound, hsame]
  have hnext : s.next.checkpoints = s.checkpoints ++ [s.point] := h.ready.follows_next.checkpoints
  have hnext' : s'.next.checkpoints = s.next.checkpoints := by
    have hready' := (hs'.past (ready_initial _ _)).ready
    rw [hnext, ← hpoints, ← hpoint]
    exact hready'.follows_next.checkpoints
  have hlength : s.next.checkpoints.length = xs.length + 1 := by
    obtain ⟨qs, h9, h10, -⟩ := (h.siblings_next.past (ready_initial _ _)).checkpoints
    rw [h10]
    simpa [initial, begun] using h9
  have hmoved : ps.map (fun c => { c with
      offset := (editOf before deleted inserted).move c.offset
      diagnostics :=
        c.diagnostics - (s.next.point.diagnostics - s.point.diagnostics) + found.length }) =
      ps.map (Change.between s.next s'.next).carry := by
    refine List.map_congr_left fun p hp => ?_
    obtain ⟨h9, h10⟩ := h6 p hp
    have hp := move_editOf inserted (le_trans h.next_le h9)
    have hlen := congrArg List.length hfound
    have hle := (h.ready.follows_next.diagnostics).length_le
    rw [List.length_append, hsame] at hlen
    simp only [Change.carry, Change.between, ParserState.point, Checkpoint.mk.injEq, true_and]
    change s.diagnostics.length ≤ _ at hle
    omega
  have hreplace : (Tree.node .sourceFile
      (xs ++ tree :: ys ++ [.leaf (u.scanner.ahead .header).token])).replaceChild? xs.length tree' =
      some (.node .sourceFile (xs ++ tree' :: ys ++ [.leaf (u.scanner.ahead .header).token])) := by
    simp [Tree.replaceChild?]
  rw [hparse, assembled, hlocated, h7, h8, ← h3.token, ← hmoved, hnext']
  simp only [exchange?, hreplace, ParserState.point, Option.bind_eq_bind] at hlater hdiagnostics ⊢
  rw [hlater, Option.bind_some, hdiagnostics, Option.bind_some, Option.bind_some, ← hlength,
    List.take_left, List.drop_left]
  rfl

end Hit

/-- Whether the node that an edit lies in, if there is one, stands at the start of the text or
behind a child that is closed, or its first line lies before the edit. A child that is not closed
ends at that line. -/
def isDetached (p : Parse) (e : Edit) : Bool :=
  match editedNode? e 0 0 p.tree.children with
  | some (index + 1, range) =>
    (p.tree.children[index]?.map (·.isUnclosed)) = some false ||
      (Text.slice? p.tree.text ⟨range.start, e.delete.start⟩).any Text.passesLine
  | _ => true

/-- A node that stands at the start of a text, or behind a child that is closed, starts a line. -/
lemma ended_of_closed {config : Config} {t : Text} {xs : List Tree} {s : ParserState} {tree : Tree}
    (h : Siblings (initial config t) xs s) (hread : s.next.forest.inner = tree :: s.forest.inner)
    (hkind : tree.kind = .dialogueNode)
    (hclosed : ∀ prior, xs.getLast? = some prior → prior.isUnclosed = false) : Ended s := by
  have hfirst := ((h.past (ready_initial _ _)).ready.ended_of_node hread hkind).1
  rcases List.eq_nil_or_concat xs with rfl | ⟨xs, prior, rfl⟩
  · obtain _ | _ := h
    exact .inl rfl
  · rw [List.concat_eq_append] at h hclosed
    obtain ⟨m, h1, h2⟩ := h.split
    obtain _ | ⟨hk, htree, ⟨⟩⟩ := h2
    have hm := (h1.past (ready_initial _ _)).ready
    exact hm.ended_of_closed hk htree (hclosed prior (by simp)) hfirst

/-- An edit of a parse that may exchange a node. -/
lemma hit_of_editedNode? {config : Config} {before deleted inserted after : Text} {index : Nat}
    {range : Range}
    (hedit : editedNode? (editOf before deleted inserted) 0 0
      (ofText config (before ++ deleted ++ after)).tree.children = some (index, range))
    (hdetached : (ofText config (before ++ deleted ++ after)).isDetached
      (editOf before deleted inserted) = true) :
    ∃ xs s tree ys u ls, Hit config before deleted after xs s tree ys u ∧ index = xs.length ∧
      range.stop = s.next.scanner.offset ∧
      List.map Diagnostic.bare ls = u.diagnostics.map Diagnostic.bare ∧
      ofText config (before ++ deleted ++ after) =
        { tree := .node .sourceFile (xs ++ tree :: ys ++ [.leaf (u.scanner.ahead .header).token])
          diagnostics := ls, checkpoints := u.checkpoints ++ [u.point], config } := by
  obtain ⟨trees, u, extra, h1, h2, -, -, -, h5⟩ := ofText_eq config (before ++ deleted ++ after)
  have hchildren : (ofText config (before ++ deleted ++ after)).tree.children =
      trees ++ [.leaf (u.scanner.ahead .header).token] := by
    rw [h5]
    rfl
  rw [isDetached, hedit, hchildren] at hdetached
  rw [hchildren] at hedit
  obtain ⟨xs, tree, rest, hcs, rfl, hkind, rfl, hstart, hstop⟩ := editedNode?_eq_some hedit
  -- the end of the text is not a node
  obtain ⟨ys, rfl⟩ : ∃ ys, trees = xs ++ tree :: ys := by
    rcases List.eq_nil_or_concat rest with rfl | ⟨ys, last, rfl⟩
    · obtain ⟨-, hlast⟩ := List.append_inj' hcs rfl
      obtain rfl := (List.cons.inj hlast).1
      rw [Tree.kind, ← kindAt, h2] at hkind
      simp at hkind
    · rw [List.concat_eq_append, ← List.cons_append, ← List.append_assoc] at hcs
      exact ⟨ys, (List.append_inj' hcs rfl).1⟩
  obtain ⟨s, hs, hrest⟩ := h1.split
  obtain _ | ⟨hk, hread, hlater⟩ := hrest
  obtain ⟨hparse, hplaced⟩ := ofText_eq_assembled h1 h2 ⟨tree, by simp, hkind⟩
  obtain ⟨ls, hls, hbare⟩ := Diagnostic.locateAll?_of_placed hplaced
  obtain ⟨-, hnext⟩ := standing (hs.append (.cons hk hread (.nil _)))
  simp only [Range.ofSize, Nat.zero_add, Tree.sizeAll_eq, Tree.size_eq, editOf, Edit.replace]
    at hstart hstop
  have hapart : Ended s ∨ (deleted ++ after).length + 1 < s.scanner.beyond := by
    rcases List.eq_nil_or_concat xs with rfl | ⟨zs, prior, rfl⟩
    · exact .inl (ended_of_closed hs hread hkind (by simp))
    · rw [List.concat_eq_append] at hs hdetached hstart
      simp only [List.length_append, List.length_singleton, Nat.zero_add, Bool.or_eq_true]
        at hdetached
      rcases hdetached with hclosed | hline
      · exact .inl (ended_of_closed hs hread hkind (by simpa using hclosed))
      · obtain ⟨htext, -⟩ := standing hs
        rw [List.append_assoc] at htext
        obtain ⟨z, -, rfl, hz⟩ := Text.split_of_size_lt htext hstart
        have hwhole :
            (ofText config (Tree.textAll (zs ++ [prior]) ++ z ++ deleted ++ after)).tree.text =
            Tree.textAll (zs ++ [prior]) ++ z ++ (deleted ++ after) := by
          have hall :=
            textAll_children config (Tree.textAll (zs ++ [prior]) ++ z ++ deleted ++ after)
          rw [h5] at hall ⊢
          rw [← List.append_assoc, ← hall]
          exact Tree.text_node _ _
        have hslice := Text.slice?_between (Tree.textAll (zs ++ [prior])) z (deleted ++ after)
        rw [hwhole, Range.ofSize, editOf, Edit.replace, Range.ofSize, Tree.sizeAll_eq, hslice]
          at hline
        exact .inr (Scanner.lt_beyond_of_passesLine hz hline)
  refine ⟨xs, s, tree, ys, u, ls, ⟨hs, hk, hread, hlater, h2, hkind, hapart, hstart, hstop⟩,
    Nat.zero_add _, ?_, hbare, ?_⟩
  · simp [Range.ofSize, Tree.sizeAll_eq, Tree.size_eq, hnext]
  · rw [hparse, assembled, hls]
    rfl

/-- The checkpoints of a node and of the child behind it. -/
lemma Hit.checkpoints {config : Config} {before deleted after : Text} {xs ys : List Tree}
    {s u : ParserState} {tree : Tree} (h : Hit config before deleted after xs s tree ys u) :
    (u.checkpoints ++ [u.point])[xs.length]? = some s.point ∧
      (u.checkpoints ++ [u.point])[xs.length + 1]? = some s.next.point := by
  refine ⟨checkpoint_at h.earlier (.cons h.running h.read h.later), ?_⟩
  have hnext := checkpoint_at h.siblings_next h.later
  rwa [List.length_append, List.length_singleton] at hnext

/-- **Reading one node again** is refused, or gives the parse of the new text. -/
lemma Hit.reparseChild {config : Config} {before deleted inserted after : Text} {xs ys : List Tree}
    {s u : ParserState} {tree : Tree} (h : Hit config before deleted after xs s tree ys u)
    {ls : List Diagnostic} (hls : ls.map Diagnostic.bare = u.diagnostics.map Diagnostic.bare)
    (hmax : Text.size (before ++ inserted ++ after) ≤ Diagnostic.maxPosition) {range : Range}
    (hrange : range.stop = s.next.scanner.offset) {old : Parse}
    (hold : old =
      { tree := .node .sourceFile (xs ++ tree :: ys ++ [.leaf (u.scanner.ahead .header).token])
        diagnostics := ls, checkpoints := u.checkpoints ++ [u.point], config }) :
    reparseChild old (editOf before deleted inserted) (before ++ inserted ++ after)
      xs.length range = none ∨
    reparseChild old (editOf before deleted inserted) (before ++ inserted ++ after)
      xs.length range =
      some (some ⟨ofText config (before ++ inserted ++ after), some xs.length⟩) := by
  obtain ⟨s', h1, h2, h3, h4, h5, h6⟩ := h.earlier_same inserted
  obtain ⟨hhere, hnext⟩ := h.checkpoints
  obtain ⟨htext, hoff⟩ := standing h1
  have hconfig : s'.scanner.config = config := (h1.past (ready_initial _ _)).config
  have hresume : Scanner.resume? config (before ++ inserted ++ after) s.point.offset s.point.stack =
      some s'.scanner.renewed := by
    have hcut : Text.cut? (before ++ inserted ++ after) s'.scanner.offset =
        some (Tree.textAll xs, s'.scanner.rest) := Text.cut?_eq_some.2 ⟨htext, hoff⟩
    rw [← h4, Scanner.resume?, ParserState.point, hcut, Scanner.renewed, hconfig]
    rfl
  have hrun : ∀ scanner, item.run { scanner } = (item.answer { scanner }, item.after { scanner }) :=
    fun _ => rfl
  have hitem := item_renewed h2 h3 rfl
  rw [hold]
  simp only [Parse.reparseChild, hhere, hnext, Option.bind_eq_bind, Option.bind_some, hresume, hrun]
  generalize ({ scanner := s'.scanner.renewed } : ParserState) = r at hitem
  obtain ⟨hanswer, hitem⟩ := hitem
  rw [hanswer]
  cases hfirst : nodeFirst.contains (s'.kindAt .header)
  · exact .inl rfl
  · obtain ⟨tree', h7, h8, h9, h10, h11⟩ := hitem hfirst
    rw [h7]
    split
    · next cs _ heq =>
      obtain rfl : tree' = .node .dialogueNode cs := by simpa using heq
      have hk : s'.kindAt .header ≠ .eof := by
        intro hk
        rw [hk] at hfirst
        exact absurd hfirst (by decide)
      simp only [h9, h10, hrange]
      by_cases hplace : s'.next.scanner.offset =
          (editOf before deleted inserted).move s.next.scanner.offset ∧
          s'.next.scanner.stack = s.next.point.stack
      · rw [h.exchange hls hmax h1 hk h8 rfl h4 h5 h6 h11 hplace.1 hplace.2]
        simp [hplace]
      · simp [hplace]
    · exact .inl rfl

/-- **Parsing again is parsing the new text**, for an edit that lies in no node, or in one that
stands at the start of the text or behind a closed child, or behind the first line of one. -/
lemma reparse_eq_of_detached (config : Config) (before deleted inserted after : Text)
    (hmax : Text.size (before ++ inserted ++ after) ≤ Diagnostic.maxPosition)
    (hdetached : (ofText config (before ++ deleted ++ after)).isDetached
      (editOf before deleted inserted) = true) :
    ((ofText config (before ++ deleted ++ after)).reparse? (editOf before deleted inserted)
      (before ++ inserted ++ after)).map (·.parse) =
        some (ofText config (before ++ inserted ++ after)) := by
  have hconfig : (ofText config (before ++ deleted ++ after)).config = config := rfl
  unfold reparse?
  simp only [hconfig]
  split
  · split
    · next index range hedit =>
      obtain ⟨xs, s, tree, ys, u, ls, hhit, rfl, hrange, hls, hold⟩ :=
        hit_of_editedNode? hedit hdetached
      rcases hhit.reparseChild hls hmax hrange hold with h | h <;> rw [h] <;> rfl
    · rfl
  · rfl

end Parse

end DialogueScript
