import DialogueScript.Proofs.Grammar.Rows

/-!
How the grammar forms groups. A group goes on as long as the arrow of its next item stands next, and
it looks for a blank line first where blank lines end groups. So a run of statements finds no
further item behind a group, unless a blank line ended it.
-/

set_option synthInstance.maxSize 4096

namespace DialogueScript

open DialogueScript.Tree

namespace Parser

open ParserState

variable {config : Config}

/-! ### Groups -/

/-- Behind an item, the next item has no blank line in front of it that ends the group. -/
def Adjacent (lineGroup : Bool) (s : ParserState) : Prop :=
  s.kindAt .afterOption = arrowOf lineGroup →
    (s.scanner.ahead .afterOption).token.startsWithBlankLine = false

lemma arrowOf_plain (lineGroup : Bool) : (arrowOf lineGroup).isStructural = false ∧
    arrowOf lineGroup ≠ .errorToken ∧ arrowOf lineGroup ≠ .eof := by
  cases lineGroup <;> simp [arrowOf, Kind.isStructural]

lemma adjacent_of_sees {s : ParserState} (hg : s.Good) (h : s.scanner.SeesBlankLine)
    (lineGroup : Bool) :
    Adjacent lineGroup s := by
  intro hk
  obtain ⟨h1, h2, -⟩ := arrowOf_plain lineGroup
  rw [← hk] at h1 h2
  exact hg.scanner.startsWithBlankLine_eq_false h h1 h2

/-- Behind a line, the plan of the next one is still to be made. -/
lemma adjacent_of_ended {s : ParserState} (hg : s.Good) (h : Ended s) (lineGroup : Bool) :
    Adjacent lineGroup s := by
  rcases h with h | h
  · simp only [Scanner.isFresh, Bool.and_eq_true, Option.isNone_iff_eq_none] at h
    exact adjacent_of_sees hg (Scanner.seesBlankLine_of_none h.1.2) lineGroup
  · intro hk
    obtain ⟨h1, h2, h3⟩ := arrowOf_plain lineGroup
    rw [← hk] at h1 h2 h3
    exact absurd (hg.scanner.eof_afterOption h h1 h2) h3

lemma Adjacent.look {lineGroup : Bool} {s : ParserState} (h : Adjacent lineGroup s) (mode : Mode) :
    Adjacent lineGroup (s.look mode) := by
  rw [Adjacent, kindAt, (Idle.look _ mode).ahead .afterOption rfl]
  exact h

/-- An item that comes next behind another one comes next everywhere. -/
lemma kindAt_of_afterOption {s : ParserState} {lineGroup : Bool}
    (h : s.kindAt .afterOption = arrowOf lineGroup) : s.kindAt .statement = arrowOf lineGroup := by
  rw [kindAt, Scanner.kind_afterOption, ← kindAt, h]
  rw [← kindAt, h]
  cases lineGroup <;> simp [arrowOf]

section
variable (levels : Nat) (statement : KindSet → Parser Unit) [∀ t, Rule (statement t)]
  [∀ t, Rowed config (statement t)]

omit [∀ t, Rowed config (statement t)] in
/-- A block ends where the line behind it starts, or where no arrow can come. -/
lemma adjacent_block {s : ParserState} (hs : RunsWith config s) (lineGroup : Bool) :
    Adjacent lineGroup ((block statement).after s) := by
  have hu := (hs.start.after (advance .statement)).after (statementList statement .empty)
  have hends := statementList_ends .empty statement (hs.start.after (advance .statement)).good
  rw [block, after_node, after_bind, after_bind, after_bind, after_pure]
  generalize (statementList statement .empty).after ((advance .statement).after s.start) = u
    at hu hends
  suffices Adjacent lineGroup
    ((expect .statement .dedent "expected the end of the indented block").after u) from this
  rw [Good.after_expect hu.good .statement (by simp)]
  split
  · next hk =>
    have htake := hu.good.scanner.takes .statement
    exact adjacent_of_sees (hu.good.take .statement)
      (htake.seesBlankLine_of_dedent (hu.unspent.settle .statement) hk) lineGroup
  · next hk =>
    -- the block ends with the text, the body or at the title of a node
    have hnot : u.kindAt .statement ≠ arrowOf lineGroup := by
      rcases hends with hc | hends | ⟨-, hc⟩
      · simp [hu.quiet.running] at hc
      · intro harrow
        rw [harrow] at hends
        cases lineGroup <;> simp [endsBlock, arrowOf] at hends
      · rcases hcommand : u.commandAt .statement with _ | k <;>
          simp [hcommand, KindSet.contains_empty] at hc
    have hscanner := (Good.errorOf_keeps (hu.good.look .statement) .statement .unexpectedToken
      "expected the end of the indented block").1
    intro harrow
    rw [kindAt, error, hscanner, look_look, (Idle.look _ .statement).ahead .afterOption rfl]
      at harrow
    exact absurd (kindAt_of_afterOption harrow) hnot

/-! ### Items -/

/-- The node of an item, and what comes next behind it. -/
structure Gathered (config : Config) (lineGroup hadBlock : Bool) (arrow : Token)
    (s u : ParserState) : Prop where
  item : ∃ cs, u.forest.inner = .node (itemKind lineGroup) (.leaf arrow :: cs) :: s.forest.inner ∧
    WellGrouped config (.node (itemKind lineGroup) (.leaf arrow :: cs)) ∧
    cs.any (isNodeOf .block) = hadBlock
  adjacent : Adjacent lineGroup u

/-- What follows the line of an item is at most a block. -/
lemma itemBlock_spec {s u : ParserState} (hu : RunsWith config u) (h : Rows config s u)
    {lineGroup : Bool} (hadjacent : Adjacent lineGroup u) :
    Rows config s ((itemBlock statement).after u) ∧
      Adjacent lineGroup ((itemBlock statement).after u) ∧
      ∃ ts, ((itemBlock statement).after u).forest.inner = ts ++ u.forest.inner ∧
        ts.any (isNodeOf .block) = (itemBlock statement).answer u := by
  have hlook := h.idle (Idle.look _ .statement) rfl
  rw [itemBlock, after_bind, answer_bind, hu.good.answer_isAt, hu.good.after_isAt]
  by_cases hk : u.kindAt .statement = .indent
  · simp only [hk, decide_true, if_true, after_bind, answer_bind, after_pure, answer_pure]
    obtain ⟨cs, hcs⟩ : ∃ cs, ((block statement).after (u.look .statement)).forest.inner =
        .node .block cs :: u.forest.inner := by
      unfold block
      exact Rule.inner_node _ (hu.good.look .statement) .block
    exact ⟨Rowed.keeps (hu.look .statement) hlook,
      adjacent_block statement (hu.look .statement) lineGroup, [_], hcs, rfl⟩
  · rw [decide_eq_false hk, if_neg (by simp), after_pure, answer_pure]
    exact ⟨hlook, hadjacent.look .statement, [], rfl, rfl⟩

lemma gathered_groupItem {s : ParserState} (hs : RunsWith config s) {mode : Mode} {lineGroup : Bool}
    (hk : s.kindAt mode = arrowOf lineGroup) :
    Gathered config lineGroup ((groupItem levels statement mode (itemKind lineGroup)).answer s)
      (s.scanner.ahead mode).token s
      ((groupItem levels statement mode (itemKind lineGroup)).after s) := by
  obtain ⟨-, -, heof⟩ := arrowOf_plain lineGroup
  have hkind : itemKind lineGroup ≠ .lineGroup ∧ itemKind lineGroup ≠ .shortcutOptionGroup := by
    cases lineGroup <;> simp [itemKind]
  have hread := Reads.take mode (.refl s.start) (show s.start.kindAt mode ≠ .eof by simp [hk, heof])
  have htake := hs.start.reads hread
  have harrow : (s.scanner.ahead mode).token.kind ≠ .blankLine := by
    rw [← kindAt, hk]
    cases lineGroup <;> simp [arrowOf]
  -- the arrow and the line
  have hline : Rowed config (line levels .text) :=
    .of_adds levels inferInstance inferInstance
  have hrow := hline.keeps htake ((Rows.refl s.start).grown (n := 0) hs.start.good hread
    (.take hs.start.good (Graded.leaf 0 _ harrow)))
  have hinner : ∃ cs, ((line levels .text).after (s.start.take mode)).forest.inner =
      .node .lineStmt cs :: [.leaf (s.scanner.ahead mode).token] := by
    rw [line]
    exact Rule.inner_node _ htake.good .lineStmt
  have hadjacent := adjacent_of_ended (htake.after (line levels .text)).good
    (EndsLine.after (line levels .text) htake.good) lineGroup
  have hhead :
      (itemHead levels mode).after s.start = (line levels .text).after (s.start.take mode) := by
    rw [itemHead, after_bind, hs.start.good.after_advance, if_neg (by simp [hk, heof])]
  have hreads : Reading (itemHead levels mode >>= fun _ => itemBlock statement) := Rule.reads
  obtain ⟨hrows, hnext, ts, hts, hany⟩ := itemBlock_spec statement
    (htake.after (line levels .text)) hrow hadjacent
  obtain ⟨cs, hcs⟩ := hinner
  obtain ⟨zs, hzs, hzrow, -⟩ := hrows
  have hafter : (itemHead levels mode >>= fun _ => itemBlock statement).after s.start =
      (itemBlock statement).after ((line levels .text).after (s.start.take mode)) := by
    rw [after_bind, hhead]
  have htrees :
      ((itemHead levels mode >>= fun _ => itemBlock statement).after s.start).forest.trees =
      .leaf (s.scanner.ahead mode).token :: .node .lineStmt cs :: ts.reverse := by
    rw [hafter, Forest.trees, hts, hcs]
    simp
  have hzs' : zs =
      ((itemHead levels mode >>= fun _ => itemBlock statement).after s.start).forest.trees := by
    rw [hafter, Forest.trees, hzs, show s.start.forest.inner = [] from rfl, List.append_nil,
      List.reverse_reverse]
  rw [groupItem, answer_node, after_node]
  refine ⟨⟨.node .lineStmt cs :: ts.reverse, ?_, ?_, ?_⟩, ?_⟩
  · rw [hreads.inner_complete hs.good, htrees]
  · rw [← htrees, ← hzs']
    exact (hzrow.node hkind.1 hkind.2).grouped
  · rw [answer_bind, hhead, ← hany]
    simp [isNodeOf]
  · rw [hafter]
    generalize (itemBlock statement).after ((line levels .text).after (s.start.take mode)) = w
      at hnext ⊢
    exact hnext

/-! ### Groups -/

omit [∀ t, Rule (statement t)] [∀ t, Rowed config (statement t)] in
lemma groupTail_spec {s : ParserState} (hs : RunsWith config s) (lineGroup : Bool) (mode : Mode) :
    (s.kindAt mode = .blankLine ∧ (groupTail lineGroup mode).answer s = .done mode ∧
      (groupTail lineGroup mode).after s = s.take mode) ∨
    (s.kindAt mode = arrowOf lineGroup ∧ (groupTail lineGroup mode).answer s = .yield mode ∧
      (groupTail lineGroup mode).after s = s.look mode) ∨
    (s.kindAt mode ≠ .blankLine ∧ s.kindAt mode ≠ arrowOf lineGroup ∧
      (groupTail lineGroup mode).answer s = .done mode ∧
      (groupTail lineGroup mode).after s = s.look mode) := by
  have hlook := hs.look mode
  obtain ⟨hpoll, hpoll'⟩ := Quiet.poll hlook.quiet
  rw [groupTail, answer_bind, after_bind, hs.good.answer_eat, hs.good.after_eat mode (by simp)]
  by_cases hb : s.kindAt mode = .blankLine
  · exact .inl ⟨hb, by simp [hb], by simp [hb]⟩
  · right
    simp only [hb, decide_false, Bool.false_eq_true, if_false, answer_bind, after_bind,
      hpoll, hpoll', hlook.good.answer_isAt, hlook.good.after_isAt, kindAt_look, look_look]
    by_cases hk : s.kindAt mode = arrowOf lineGroup <;> simp [hb, hk]

/-- In a group, where the arrow of the next item stands next: the items so far, and what the
settings ask for in front of the arrow. -/
structure Gathers (config : Config) (lineGroup : Bool) (mode : Mode) (s : ParserState) : Prop where
  under : RunsWith config s
  arrow : s.kindAt mode = arrowOf lineGroup
  items : ∃ items, s.forest.inner = items.reverse ∧ Items config lineGroup items ∧
    ∀ z, items.getLast? = some z → config.breaksAfter z.hasBlock lineGroup = true →
      (s.scanner.ahead mode).token.startsWithBlankLine = false

/-- Behind an item of a group. -/
structure Behind (config : Config) (lineGroup hadBlock : Bool) (s : ParserState) : Prop where
  under : RunsWith config s
  adjacent : Adjacent lineGroup s
  items : ∃ items t, s.forest.inner = t :: items.reverse ∧ Items config lineGroup (items ++ [t]) ∧
    t.hasBlock = hadBlock

lemma Gathers.behind {s : ParserState} {mode : Mode} {lineGroup : Bool}
    (h : Gathers config lineGroup mode s) :
    Behind config lineGroup ((groupItem levels statement mode (itemKind lineGroup)).answer s)
      ((groupItem levels statement mode (itemKind lineGroup)).after s) := by
  obtain ⟨hs, harrow, items, hinner, hitems, hlast⟩ := h
  obtain ⟨⟨cs, hcs, hgrouped, hblock⟩, hadjacent⟩ := gathered_groupItem levels statement hs harrow
  exact ⟨hs.after _, hadjacent, items, _, by rw [hcs, hinner],
    hitems.concat (by simp [isNodeOf]) hgrouped fun z hz hbreak =>
      ⟨_, cs, rfl, harrow, hlast z hz hbreak⟩,
    hblock⟩

/-- The mode in which a group looks for what follows an item. -/
def modeBehind (config : Config) (lineGroup hadBlock : Bool) : Mode :=
  if config.breaksAfter hadBlock lineGroup then .afterOption else .statement

/-- How a group ends. -/
structure Closed (config : Config) (lineGroup : Bool) (s : ParserState) : Prop where
  grouped : WellGrouped config (.node (groupKind lineGroup) s.forest.trees)
  ends : (Tree.node (groupKind lineGroup) s.forest.trees).endsWithBlankLine = true ∨
    s.kindAt .statement ≠ arrowOf lineGroup

section
variable {s : ParserState} {lineGroup hadBlock : Bool} (h : Behind config lineGroup hadBlock s)
include h

omit [∀ t, Rule (statement t)] [∀ t, Rowed config (statement t)] in
/-- A blank line ends the group where the settings say so. -/
lemma Behind.closed_take (hk : s.kindAt (modeBehind config lineGroup hadBlock) = .blankLine) :
    Closed config lineGroup (s.take (modeBehind config lineGroup hadBlock)) := by
  obtain ⟨hs, -, items, t, hinner, hitems, hblock⟩ := h
  have hbreak : config.breaksAfter t.hasBlock lineGroup = true := by
    by_contra hb
    rw [hblock, Bool.not_eq_true] at hb
    rw [modeBehind, hb] at hk
    exact hs.good.scanner.ahead_ne_blankLine (by simp) hk
  have htrees : (s.take (modeBehind config lineGroup hadBlock)).forest.trees =
      (items ++ [t]) ++ [.leaf (s.scanner.ahead (modeBehind config lineGroup hadBlock)).token] := by
    simp [Forest.trees, ParserState.take, Forest.add, hinner]
  refine ⟨by rw [htrees]; exact hitems.group_blank (List.getLast?_concat ..) hbreak, .inl ?_⟩
  rw [kindAt] at hk
  rw [htrees, endsWithBlankLine, Tree.children, List.getLast?_concat]
  simp [isTokenOf, hk]

lemma Behind.closed_look (hb : s.kindAt (modeBehind config lineGroup hadBlock) ≠ .blankLine)
    (hk : s.kindAt (modeBehind config lineGroup hadBlock) ≠ arrowOf lineGroup) :
    Closed config lineGroup (s.look (modeBehind config lineGroup hadBlock)) := by
  obtain ⟨hs, -, items, t, hinner, hitems, hblock⟩ := h
  have htrees : (s.look (modeBehind config lineGroup hadBlock)).forest.trees = items ++ [t] := by
    simp [Forest.trees, ParserState.look, hinner]
  refine ⟨by rw [htrees]; exact hitems.group, .inr ?_⟩
  rw [kindAt, (Idle.look _ _).ahead .statement rfl, ← kindAt]
  unfold modeBehind at hb hk
  split at hb
  · next hbreak =>
    rw [if_pos hbreak] at hk
    rwa [kindAt, Scanner.kind_afterOption hb]
  · next hbreak => rwa [if_neg hbreak] at hk

lemma Behind.gathers_look
    (hk : s.kindAt (modeBehind config lineGroup hadBlock) = arrowOf lineGroup) :
    Gathers config lineGroup (modeBehind config lineGroup hadBlock)
      (s.look (modeBehind config lineGroup hadBlock)) := by
  obtain ⟨hs, hadjacent, items, t, hinner, hitems, hblock⟩ := h
  refine ⟨hs.look _, by rwa [kindAt_look], items ++ [t], by simp [ParserState.look, hinner], hitems,
    fun z hz hbreak => ?_⟩
  obtain rfl : t = z := by simpa using hz
  rw [hblock] at hbreak
  rw [modeBehind, if_pos hbreak] at hk ⊢
  rw [ParserState.look, ahead_looking]
  exact hadjacent hk

end

omit [∀ t, Rowed config (statement t)] in
/-- A step of a group is an item and what follows it. -/
lemma groupStep_eq {s : ParserState} (hs : RunsWith config s) (mode : Mode) (lineGroup : Bool) :
    ∃ p : Parser (ForInStep Mode), p = groupTail lineGroup (modeBehind config lineGroup
        ((groupItem levels statement mode (itemKind lineGroup)).answer s)) ∧
      (groupStep statement levels lineGroup mode).answer s =
        p.answer ((groupItem levels statement mode (itemKind lineGroup)).after s) ∧
      (groupStep statement levels lineGroup mode).after s =
        p.after ((groupItem levels statement mode (itemKind lineGroup)).after s) := by
  have hconfig := (hs.after (groupItem levels statement mode (itemKind lineGroup))).config
  refine ⟨_, rfl, ?_, ?_⟩
  · rw [groupStep, answer_bind, answer_get_bind, modeBehind, ← hconfig]
    rfl
  · rw [groupStep, after_bind, after_get_bind, modeBehind, ← hconfig]
    rfl

lemma groupStep_spec {s : ParserState} {mode : Mode} {lineGroup : Bool}
    (h : Gathers config lineGroup mode s) :
    (∃ next, (groupStep statement levels lineGroup mode).answer s = .yield next ∧
      Gathers config lineGroup next ((groupStep statement levels lineGroup mode).after s)) ∨
    (∃ last, (groupStep statement levels lineGroup mode).answer s = .done last ∧
      Closed config lineGroup ((groupStep statement levels lineGroup mode).after s)) := by
  have hbehind := h.behind levels statement
  obtain ⟨_, rfl, hanswer, hafter⟩ := groupStep_eq levels statement h.under mode lineGroup
  rw [hanswer, hafter]
  rcases groupTail_spec hbehind.under lineGroup (modeBehind config lineGroup
    ((groupItem levels statement mode (itemKind lineGroup)).answer s)) with
    ⟨h1, h2, h3⟩ | ⟨h1, h2, h3⟩ | ⟨h0, h1, h2, h3⟩ <;> rw [h2, h3]
  · exact .inr ⟨_, rfl, hbehind.closed_take h1⟩
  · exact .inl ⟨_, rfl, hbehind.gathers_look h1⟩
  · exact .inr ⟨_, rfl, hbehind.closed_look h0 h1⟩

/-- **A group ends with a blank line, or no item of its kind comes next.** -/
lemma rows_group {s u : ParserState} (hu : RunsWith config u) (h : Rows config s u)
    {lineGroup : Bool} (hk : u.kindAt .statement = arrowOf lineGroup) :
    Rows config s ((group levels statement lineGroup).after u) := by
  have hstart : Gathers config lineGroup .statement u.start :=
    ⟨hu.start, hk, [], rfl, ⟨by simp, .nil⟩, by simp⟩
  obtain ⟨mode, v, hv, hdone, hafter⟩ :=
    loop_ends (I := fun mode v => Gathers config lineGroup mode v)
    (fun mode v hv next
      (hnext : (groupStep statement levels lineGroup mode).answer v = .yield next) => by
      have hlt := (advances_groupStep statement levels lineGroup hv.under.good hv.arrow hnext).1
      rcases groupStep_spec levels statement hv with ⟨_, h1, h2⟩ | ⟨_, h1, -⟩
      · rw [h1] at hnext
        exact ⟨hlt, ForInStep.yield.inj hnext ▸ h2⟩
      · simp [h1] at hnext) hstart
  have hclosed : Closed config lineGroup ((groupStep statement levels lineGroup mode).after v) := by
    rcases groupStep_spec levels statement hv with ⟨_, h1, -⟩ | ⟨_, -, h2⟩
    · simp [h1] at hdone
    · exact h2
  have hreads : Reading (loop (groupStep statement levels lineGroup) Mode.statement >>= fun _ =>
      (pure () : Parser Unit)) := .bind (.loop (fun _ => Rule.reads) _) fun _ => Rule.reads
  have hinner := hreads.inner_complete hu.good (groupKind lineGroup)
  rw [after_bind, after_pure, hafter] at hinner
  rw [group, after_node, after_bind, after_pure, hafter]
  generalize (groupStep statement levels lineGroup mode).after v = w at hclosed hinner ⊢
  exact h.group hk hinner hclosed.grouped hclosed.ends

end

/-! ### All statements -/

section
variable (levels : Nat) (statement : KindSet → Parser Unit) [∀ t, Rule (statement t)]
  [∀ t, Rowed config (statement t)]

lemma rowed_statementOf (terminators : KindSet) :
    Rowed config (statementOf levels statement terminators) where
  keeps s u hu h := by
    have hlook := hu.look .statement
    have hrows := h.idle (Idle.look _ .statement) rfl
    have other {p : Parser Unit} (hr : Readable p) (hp : Adds true (SingleAt config levels) p) :
        Rows config s (p.after (u.look .statement)) :=
      (Rowed.of_adds levels hr hp).keeps hlook hrows
    rw [statementOf, after_bind, hu.good.answer_peekKind, hu.good.after_peekKind]
    split
    · exact Rowed.keeps hlook hrows
    · next hk =>
      exact rows_group levels statement hlook hrows (show _ = arrowOf false by rwa [kindAt_look])
    · next hk =>
      exact rows_group levels statement hlook hrows (show _ = arrowOf true by rwa [kindAt_look])
    · exact Rowed.keeps hlook hrows
    · exact other inferInstance inferInstance
    · exact other inferInstance inferInstance

end

instance (levels : Nat) (terminators : KindSet) : Rowed config (statement levels terminators) := by
  induction levels generalizing terminators with
  | zero =>
    have : Adds true (SingleAt config 0) (statement 0 terminators) := by
      rw [statement]
      infer_instance
    exact .of_adds 0 inferInstance this
  | succ levels ih =>
    rw [statement]
    exact rowed_statementOf levels (statement levels) terminators

/-! ### Scripts -/

instance : Rowed config body := by
  have single {α : Type} {p : Parser α} (hr : Readable p) (hp : Adds true (SingleAt config 0) p) :
      Rowed config p := .of_adds 0 hr hp
  have hhead : Adds true (SingleAt config 0) bodyHead := by
    unfold bodyHead
    infer_instance
  have hclose : Adds true (SingleAt config 0) bodyClose := by
    unfold bodyClose
    infer_instance
  have hstray :
    Adds true (SingleAt config 0)
      (node .error (error .statement "unexpected end of block" >>= fun _ =>
      advance .statement)) := inferInstance
  have := single inferInstance hhead
  have := single inferInstance hclose
  have := single inferInstance hstray
  have := single (p := isCancelled) inferInstance inferInstance
  have := single (p := isAt .statement .dedent) inferInstance inferInstance
  have : Rowed config bodyStep := by
    unfold bodyStep
    infer_instance
  have : Rowed config bodyStatements := by
    unfold bodyStatements
    infer_instance
  unfold body
  exact .inNode inferInstance inferInstance (by simp) (by simp)

instance : Rowed config nodeTail := by
  have single {α : Type} {p : Parser α} (hr : Readable p) (hp : Adds true (SingleAt config 0) p) :
      Rowed config p := .of_adds 0 hr hp
  have := single (p := isAt .header .bodyStart) inferInstance inferInstance
  have := single (p := error .header "expected `---`") inferInstance inferInstance
  unfold nodeTail
  infer_instance

/-- **The children of the root are a row.** -/
lemma rowed_child (k : Kind) : Rowed config (child k) := by
  have single {α : Type} {p : Parser α} (hr : Readable p)
      (hp : Adds true (SingleAt config maxDepth) p) : Rowed config p := .of_adds maxDepth hr hp
  have hheaders : Rowed config nodeHeaders := single ⟨reading_nodeHeaders⟩ inferInstance
  have : Readable (nodeHeaders >>= fun _ => nodeTail) := ⟨reading_nodeParts⟩
  have : Rowed config (nodeHeaders >>= fun _ => nodeTail) :=
    .seq ⟨reading_nodeHeaders⟩ hheaders fun _ => inferInstance
  have : Rowed config (nodeOf (nodeHeaders >>= fun _ => nodeTail)) :=
    .inNodeOf inferInstance inferInstance fun s hs => by
      rw [answer_bind]
      rcases answer_nodeTail (reading_nodeHeaders.follows hs.good).good with ⟨h, -⟩ | h <;> simp [h]
  have : Readable (nodeOf (nodeHeaders >>= fun _ => nodeTail)) := ⟨reading_nodeParts.nodeOf⟩
  have : Rowed config dialogueNode := by
    rw [dialogueNode]
    infer_instance
  have := single (p := fileHashtag) inferInstance inferInstance
  have := single (p := strayLine) inferInstance inferInstance
  unfold child
  infer_instance

end Parser

end DialogueScript
