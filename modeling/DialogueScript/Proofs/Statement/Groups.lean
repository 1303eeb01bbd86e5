import DialogueScript.Proofs.Statement.Runs

/-!
Reading lines and groups of items. A group takes items as long as arrows of its kind follow,
whatever the configuration says about blank lines, as there are none.
-/

namespace DialogueScript

open DialogueScript.Parser DialogueScript.Scanner

namespace Passage

variable {j j' levels : Nat} {t r c : Text} {pre : List Tree} {mode : Mode}

/-! ### Lines -/

/-- The parts of a line that is plain text. -/
def IsText (t : Text) (us : List Tree) : Prop := linePartsAmong us = [.text t]

lemma textStep_course {q q' : Scanner → Prop} (h : Offers mode .text t q q') :
    Course q [] (textStep levels mode false) (.yield true) (IsText t) q' := by
  refine Course.peekKind h.toFaces ?_
  refine (Course.advance h (by decide)).bind ?_
  rintro _ ⟨token, hk, hw, rfl⟩
  exact .pure (by simp [IsText, linePartsAmong, hk, hw])

lemma reads_line (h : Lexeme.PlainLine t) : (line t).Reads := by
  rintro (_ | levels) j terminators r j' c hd hl - hr hf
  · omega
  have hoffers : Offers .statement .text t (LineAt j j (t ++ [] ++ '\n' :: r))
      (Midline (.nested j) ('\n' :: r)) := LineAt.offers (tokenAt_plain h rfl) (by decide)
  rw [List.append_nil] at hoffers
  have hlevel := hf.level
  have hend : Offers .text .newline ['\n'] (Midline (.nested j) ('\n' :: r)) (LineAt j j' c) :=
    Midline.offers_line rfl hr (by omega)
  rw [text, ahead_eq (lineOf_plain h (by omega) r), ahead_eq hr]
  refine (statement_line hoffers.toFaces (.inl rfl)
    (line_course (textStep_course hoffers) hend)).mono ?_
  rintro _ ⟨u, hu, rfl⟩
  exact ⟨u, by rw [Stmt.ofTree?_line hu fun _ h => h]; rfl, rfl⟩

/-! ### Items -/

/-- A block in front of a line that is in fewer blocks. -/
lemma block_course {block : List Passage} (hread : ReadsAll block)
    (hd : depthAll block + 1 < levels) (hl : j + 1 + levels ≤ maxDepth) (hr : LineOf j' c r)
    (hj : j' ≤ j) {c₁ : Text} (hline : LineOf (j + 1) c₁ (textAll (j + 1) block ++ r)) :
    Course (LineAt j (j + 1) c₁) pre (Parser.block (statement levels)) ()
      (fun ts => ∃ ds, Stmt.ofAll ds = values block ∧ ts = pre ++ [.node .block ds])
        (LineAt j j' c) := by
  have hindent : Offers .statement .indent [] (LineAt j (j + 1) c₁) (LineAt (j + 1) (j + 1) c₁) :=
    LineAt.offers_indent rfl
  have hdedent : Offers .statement .dedent [] (LineAt (j + 1) j' c) (LineAt j j' c) :=
    LineAt.offers_dedent rfl hj
  have hends : EndsAt .empty (j + 1) j' c := by
    refine .inl ?_
    rw [kindOf_of_lt (by omega)]
    exact .inr (.inr (.inr rfl))
  have hrun := hread hd hl clauseOnly_empty hr (by omega) hends
  rw [ahead_eq hline, ahead_eq hr] at hrun
  unfold Parser.block
  refine Course.node .block (V := fun ds => Stmt.ofAll ds = values block) ?_
  refine (Course.advance hindent (by decide)).bind ?_
  rintro _ ⟨t1, -, -, rfl⟩
  refine hrun.step fun us hus => ?_
  refine (Course.expect hdedent (by decide) _).bind ?_
  rintro _ ⟨t2, -, -, rfl⟩
  exact .pure (by simp [Stmt.ofAll_cons, hus.statements])

/-- The children of an item with its line and its block. -/
structure IsItem (t : Text) (block : List Passage) (ds : List Tree) : Prop where
  line : (nodeAmong? .lineStmt ds).map Line.ofChildren = some (plainLine t)
  block : Stmt.blockOf? ds = blockValue block

lemma LineTree.line {u : Tree} (h : LineTree (IsText t) u) :
    ∃ cs, u = .node .lineStmt cs ∧ Line.ofChildren cs = plainLine t := by
  obtain ⟨us, hus, token, -, rfl⟩ := h
  refine ⟨_, rfl, ?_⟩
  simp [Line.ofChildren, nodeAmong?, hashtagsAmong, plainLine, show linePartsAmong us = _ from hus]

section
variable {block : List Passage} (hwell : WellFormedAll block) (hread : ReadsAll block)
  (hd : depthAll block + 1 < levels) (hl : j + 1 + levels ≤ maxDepth) (hr : LineOf j' c r)
  (hj : j' ≤ j)
include hwell hread hd hl hr hj

/-- The line of an item and the block behind it, if there is one. -/
lemma itemRest_course (ht : Lexeme.PlainText t) {token : Token} :
    Course (Midline (.nested j) (t ++ '\n' :: (textAll (j + 1) block ++ r))) [.leaf token]
      (Parser.line levels .text >>= fun _ => itemBlock (statement levels)) (!block.isEmpty)
      (IsItem t block) (LineAt j j' c) := by
  have hoffers : Offers .text .text t
      (Midline (.nested j) (t ++ [] ++ '\n' :: (textAll (j + 1) block ++ r)))
      (Midline (.nested j) ('\n' :: (textAll (j + 1) block ++ r))) :=
    Midline.offers (facing_plain ht) (by decide)
  rw [List.append_nil] at hoffers
  rcases block with _ | ⟨x, xs⟩
  · -- the next line is no deeper than the item
    have hfaces : Faces .statement (kindOf j j' c) (LineAt j j' c) := LineAt.faces rfl (by omega)
    have hindent := (kindOf_plain hr.content hj).1
    refine (line_course (textStep_course hoffers) (Midline.offers_line rfl hr (by omega))).bind ?_
    rintro _ ⟨u, hu, rfl⟩
    refine Course.isAt hfaces ?_
    simp only [hindent, decide_false, Bool.false_eq_true, if_false]
    obtain ⟨cs, rfl, hcs⟩ := LineTree.line hu
    exact .pure ⟨by simp [nodeAmong?, hcs], by simp [Stmt.blockOf?, blockValue]⟩
  · obtain ⟨c₁, hopen⟩ := opens x hwell.1 (by omega : j + 1 ≤ maxDepth) (textAll (j + 1) xs ++ r)
    have hline : LineOf (j + 1) c₁ (textAll (j + 1) (x :: xs) ++ r) := by
      rw [textAll, List.append_assoc]
      exact hopen.line
    have hindent : Offers .statement .indent [] (LineAt j (j + 1) c₁) (LineAt (j + 1) (j + 1) c₁) :=
      LineAt.offers_indent rfl
    refine (line_course (textStep_course hoffers) (Midline.offers_line rfl hline le_rfl)).bind ?_
    rintro _ ⟨u, hu, rfl⟩
    refine Course.isAt hindent.toFaces ?_
    refine (block_course hread hd hl hr hj hline).bind ?_
    rintro _ ⟨ds, hds, rfl⟩
    obtain ⟨cs, rfl, hcs⟩ := LineTree.line hu
    exact .pure ⟨by simp [nodeAmong?, hcs], by simp [Stmt.blockOf?, blockValue, hds, values]⟩

lemma groupItem_course (ht : Lexeme.PlainText t) (hm : mode.isIndentSensitive = true)
    (lineGroup : Bool) (kind : Kind) :
    Course (LineAt j j (itemContent lineGroup t (textAll (j + 1) block ++ r))) pre
      (groupItem levels (statement levels) mode kind) (!block.isEmpty)
      (fun ts => ∃ ds, IsItem t block ds ∧ ts = pre ++ [.node kind ds]) (LineAt j j' c) := by
  have harrow : Offers mode (arrowOf lineGroup) (arrowOf lineGroup).chars
      (LineAt j j (itemContent lineGroup t (textAll (j + 1) block ++ r)))
      (Midline (.nested j) (t ++ '\n' :: (textAll (j + 1) block ++ r))) :=
    LineAt.offers (tokenAt_item hm lineGroup ht _) (by cases lineGroup <;> simp [arrowOf])
  unfold groupItem itemHead
  refine Course.node kind ?_
  rw [bind_assoc]
  refine (Course.advance harrow (by cases lineGroup <;> simp [arrowOf])).bind ?_
  rintro _ ⟨token, -, -, rfl⟩
  exact itemRest_course hwell hread hd hl hr hj ht

end

/-! ### Groups -/

/-- Behind an item, a group goes on at an arrow of its kind and ends at anything else. -/
lemma groupTail_course {lineGroup : Bool} (hm : mode.isIndentSensitive = true) (hc : c.Content)
    (hj : j' ≤ j) : Course (LineAt j j' c) pre (groupTail lineGroup mode)
      (if kindOf j j' c = arrowOf lineGroup then .yield mode else .done mode) (· = pre)
        (LineAt j j' c) := by
  have hfaces : Faces mode (kindOf j j' c) (LineAt j j' c) := LineAt.faces hm (by omega)
  refine (Course.eat_other hfaces (kindOf_plain hc hj).2 (by decide)).bind ?_
  rintro _ rfl
  refine Course.poll (Course.isAt hfaces ?_)
  by_cases h : kindOf j j' c = arrowOf lineGroup
  · simp only [h, decide_true, if_true]
    exact .pure rfl
  · simp only [h, decide_false, Bool.false_eq_true, if_false]
    exact .pure rfl

/-- The trees of the items of a group. -/
def ItemTrees (kind : Kind) (items : List (Text × List Passage)) (us : List Tree) : Prop :=
  List.Forall₂ (fun item u => ∃ ds, IsItem item.1 item.2 ds ∧ u = .node kind ds) items us

lemma ItemTrees.itemsOf {kind : Kind} {items : List (Text × List Passage)} {us : List Tree}
    (h : ItemTrees kind items us) : Stmt.itemsOf kind us = itemValues items ∧
      hasToken .blankLine us = false := by
  induction h with
  | nil => simp [itemValues]
  | cons hitem _ ih =>
    obtain ⟨ds, hds, rfl⟩ := hitem
    simp [ih.1, ih.2, hds.line, hds.block, itemValues]

/-- The kind of the nodes of items. -/
def itemKindOf (lineGroup : Bool) : Kind := if lineGroup then .lineGroupItem else .shortcutOption

/-- The line behind an item: that of the next item, or the one behind the group. -/
lemma next_item (lineGroup : Bool) (hr : LineOf j' c r) (hj : j' ≤ j)
    (hend : kindOf j j' c ≠ arrowOf lineGroup) (hlevel : j ≤ maxDepth)
    {items : List (Text × List Passage)} (hwell : WellFormedItems items) :
    ∃ j₂ c₂, LineOf j₂ c₂ (itemsText lineGroup j items ++ r) ∧ j₂ ≤ j ∧
      (kindOf j j₂ c₂ = arrowOf lineGroup ↔ items ≠ []) := by
  rcases items with _ | ⟨⟨t, block⟩, items⟩
  · exact ⟨j', c, by simpa [itemsText] using hr, hj, by simp [hend]⟩
  · refine ⟨j,
      itemContent lineGroup t (textAll (j + 1) block ++ (itemsText lineGroup j items ++ r)), ?_,
      le_rfl, by simp [kindOf_item lineGroup hwell.1]⟩
    have := lineOf_item lineGroup t
      (textAll (j + 1) block ++ (itemsText lineGroup j items ++ r)) hlevel
    simpa [itemsText] using this

/-- The lines of items are read one by one. -/
lemma items_course (lineGroup : Bool) (hr : LineOf j' c r) (hj : j' ≤ j)
    (hend : kindOf j j' c ≠ arrowOf lineGroup) (hl : j + 1 + levels ≤ maxDepth) :
    ∀ {items : List (Text × List Passage)}, items ≠ [] → WellFormedItems items →
      (∀ item ∈ items, ReadsAll item.2) → depthPairs items + 1 < levels →
      ∀ {mode : Mode}, mode.isIndentSensitive = true → ∀ pre : List Tree,
      Course (Ahead j (itemsText lineGroup j items ++ r)) pre
        (loop (groupStep (statement levels) levels lineGroup) mode >>= fun _ => pure ()) ()
        (fun ts => ∃ us, ItemTrees (itemKindOf lineGroup) items us ∧ ts = pre ++ us)
          (Ahead j r) := by
  intro items
  induction items with
  | nil => exact fun h => absurd rfl h
  | cons item more ih =>
    obtain ⟨t, block⟩ := item
    intro _ hwell hread hd mode hm pre
    obtain ⟨ht, hblock, hmore⟩ := hwell
    simp only [depthPairs] at hd
    obtain ⟨j₂, c₂, hline, hj₂, hkind⟩ := next_item lineGroup hr hj hend (by omega) hmore
    have hfirst : LineOf j (itemContent lineGroup t (textAll (j + 1) block ++
        (itemsText lineGroup j more ++ r))) (itemsText lineGroup j ((t, block) :: more) ++ r) := by
      have := lineOf_item lineGroup t (textAll (j + 1) block ++ (itemsText lineGroup j more ++ r))
        (by omega : j ≤ maxDepth)
      simpa [itemsText] using this
    rw [ahead_eq hfirst]
    refine Course.loop_bind (fun _ _ hg => Rule.good _ hg)
      (advances_groupStep (statement levels) levels lineGroup) (fun s hs => ?_) ?_
    · rw [(LineAt.faces hm (by omega)).kind hs, kindOf_item lineGroup ht]
    rw [groupStep, bind_assoc]
    refine (groupItem_course hblock (hread (t, block) (by simp)) (by omega) hl hline hj₂ ht
      hm lineGroup (itemKindOf lineGroup)).bind ?_
    rintro _ ⟨ds, hds, rfl⟩
    rw [bind_assoc]
    refine Course.withConfig (f := fun config => groupTail lineGroup
      (if config.breaksAfter (!block.isEmpty) lineGroup then .afterOption else .statement) >>= _)
      fun config => ?_
    have hmode : (if config.breaksAfter (!block.isEmpty) lineGroup then Mode.afterOption
        else .statement).isIndentSensitive = true := by
      split <;> rfl
    refine (groupTail_course hmode hline.content hj₂).bind ?_
    rintro _ rfl
    by_cases hlast : more = []
    · subst hlast
      rw [if_neg (fun h => hkind.1 h rfl)]
      rw [itemsText, List.nil_append] at hline
      rw [ahead_eq hline]
      exact .pure ⟨_, .cons ⟨ds, hds, rfl⟩ .nil, rfl⟩
    · rw [if_pos (hkind.2 hlast), ← ahead_eq hline]
      refine (ih hlast hmore (fun item h => hread item (by simp [h])) (by omega) hmode _).mono ?_
      rintro _ ⟨us, hus, rfl⟩
      exact ⟨_, .cons ⟨ds, hds, rfl⟩ hus, by simp⟩

lemma reads_group {lineGroup : Bool} {items : List (Text × List Passage)}
    (hwell : (group lineGroup items).WellFormed) (hread : ∀ item ∈ items, ReadsAll item.2) :
    (group lineGroup items).Reads := by
  rintro (_ | levels) j terminators r j' c hd hl - hr hf
  · omega
  simp only [depth] at hd
  obtain ⟨c₁, hopen⟩ := opens _ hwell (by omega : j ≤ maxDepth) r
  have hfaces :
      Faces .statement (arrowOf lineGroup) (Ahead j ((group lineGroup items).text j ++ r)) := by
    have : Faces .statement (kindOf j j c₁) (LineAt j j c₁) := LineAt.faces rfl (by omega)
    rwa [hopen.kind, ← ahead_eq hopen.line] at this
  have hmode : Mode.statement.isIndentSensitive = true := rfl
  have hnested : j + 1 + levels ≤ maxDepth := by omega
  have hgroup : Course (Ahead j ((group lineGroup items).text j ++ r)) []
      (Parser.group levels (statement levels) lineGroup) () (group lineGroup items).Means
        (Ahead j r) := by
    rw [Parser.group, text]
    refine ((items_course lineGroup hr hf.level (hf.arrow lineGroup rfl) hnested hwell.1
      hwell.2 hread (by omega) hmode []).node _).mono ?_
    rintro _ ⟨_, ⟨us, hus, rfl⟩, rfl⟩
    obtain ⟨h1, h2⟩ := hus.itemsOf
    refine ⟨_, ?_, rfl⟩
    cases lineGroup
    · simp only [itemKindOf, Bool.false_eq_true, if_false] at h1
      simp [Stmt.ofTree?, h1, h2, value]
    · simp only [itemKindOf, if_true] at h1
      simp [Stmt.ofTree?, h1, h2, value]
  rw [statement]
  refine Course.peekKind hfaces ?_
  cases lineGroup <;> exact hgroup

end Passage

end DialogueScript
