import DialogueScript.Proofs.Scanner.Calls
import DialogueScript.Proofs.Text.Restyle
import Mathlib.Data.List.Forall2

/-!
A scanner of a text with another layout. As long as the indentations of all lines stand in the same
order, the same blocks are opened and closed, and the same tokens are read: their own texts are the
same, except those of line breaks and blank lines, and they stand at places that correspond.
-/

namespace DialogueScript

open Text

variable {R : Restyling}

/-! ### Skipped lines -/

section
variable {w u : Text} (hw : ∀ c ∈ w, isBlank c = true)
include hw

lemma blankTrivia_of_unspaced (hu : Unspaced u) : blankTrivia (w ++ u) = blankTrivia w := by
  rw [blankTrivia, takeWhile_append (List.all_eq_true.2 hw) hu, blankTrivia,
    List.takeWhile_eq_self_iff.2 hw]

lemma concat_blankTrivia_of_blank : Trivia.concat (blankTrivia w) = w := by
  rw [concat_blankTrivia, List.takeWhile_eq_self_iff.2 hw]

lemma gap_append (hu : Unspaced u) : gap true true (w ++ u) = blankTrivia w ++ commentTrivia u := by
  simp only [gap, if_true, blankTrivia_of_unspaced hw hu, concat_blankTrivia_of_blank hw,
    List.drop_left]

/-- What is left of a line behind its indentation and a comment. -/
lemma drop_gapLength_append (hu : Unspaced u) : (w ++ u).drop (gapLength true true (w ++ u)) =
    u.drop (Trivia.concat (commentTrivia u)).length := by
  rw [gapLength, gap_append hw hu, Trivia.concat_append, concat_blankTrivia_of_blank hw,
    List.length_append, ← List.drop_drop, List.drop_left]

lemma indentationOf_blankTrivia_of_blank : indentationOf (blankTrivia w) = w := by
  rw [indentationOf_blankTrivia, List.takeWhile_eq_self_iff.2 hw]

end

lemma length_concat_commentTrivia_le (u : Text) :
    (Trivia.concat (commentTrivia u)).length ≤ (firstLine u).length := by
  rw [concat_commentTrivia]
  split <;> simp

/-- Behind a comment the line is over. -/
lemma commentTrivia_eq_nil {u : Text} (hne : u.drop (Trivia.concat (commentTrivia u)).length ≠ [])
    (hn : lineBreak? (u.drop (Trivia.concat (commentTrivia u)).length) = none) :
    commentTrivia u = [] := by
  cases hc : startsComment u
  · simp [commentTrivia, hc]
  · rw [concat_commentTrivia, hc, if_pos rfl] at hne hn
    have := lineBreak?_drop_firstLine u hne
    simp [hn] at this

lemma isSome_leadingBlankLine? (w u b : Text) (ps : List Trivia) :
    (leadingBlankLine? (blankTrivia w ++ commentTrivia u ++ ⟨.newline, b⟩ :: ps)).isSome =
      !startsComment u := by
  unfold blankTrivia commentTrivia
  split <;> cases startsComment u <;> rfl

/-- A blank line is the whole first line. -/
lemma behind_blankLine {t x y b r : Text} {ps : List Trivia}
    (hb : leadingBlankLine? (gap true true t ++ ⟨.newline, x⟩ :: ps) = some b)
    (hcut : t.drop (gapLength true true t) = x ++ y) (hr : t = b ++ r) : r = y := by
  obtain rfl := eq_of_leadingBlankLine? hb
  have hall := List.take_append_drop (gapLength true true t) t
  rw [hcut, ← concat_gap, ← List.append_assoc] at hall
  exact (List.append_cancel_left (hall.trans hr)).symm

lemma unspaced_contentOf (t : Text) : Unspaced (contentOf t) := by
  have hgap : gap true true (contentOf t) = [] := by
    have h := lineTrivia_contentOf t
    rcases hb : lineBreak? ((contentOf t).drop (gapLength true true (contentOf t))) with _ | n
    · rwa [lineTrivia_of_none hb] at h
    · simp [lineTrivia_of_some hb] at h
  have hblank := concat_blankTrivia (contentOf t)
  rw [gap, if_pos rfl, List.append_eq_nil_iff] at hgap
  rw [unspaced_iff, ← hblank, hgap.1]
  rfl

/-- What the layout changes of the lines that are skipped in front of some content. -/
structure Skipped (R : Restyling) (t t' : Text) : Prop where
  content : Tail R (contentOf t) (contentOf t')
  width : contentOf t ≠ [] →
    R.widths (IndentStack.measure R.tabWidth (indentationOf (lineTrivia t)))
      (IndentStack.measure R.tabWidth (indentationOf (lineTrivia t')))
  blank : (leadingBlankLine? (lineTrivia t)).isSome = (leadingBlankLine? (lineTrivia t')).isSome
  behind : ∀ {b b' r r' : Text}, leadingBlankLine? (lineTrivia t) = some b →
    leadingBlankLine? (lineTrivia t') = some b' → t = b ++ r → t' = b' ++ r' → Lines R r r'
  kinds : R.Tidy → (lineTrivia t).map Trivia.kind = (lineTrivia t').map Trivia.kind

lemma kinds_blankTrivia {w w' : Text} (h : R.indents w w') (hR : R.Tidy) :
    (blankTrivia w).map Trivia.kind = (blankTrivia w').map Trivia.kind := by
  have hiff := hR h
  have h1 := concat_blankTrivia_of_blank (R.blank h).1
  have h2 := concat_blankTrivia_of_blank (R.blank h).2
  unfold blankTrivia at h1 h2 ⊢
  split <;> split <;> simp_all

/-- The blanks and the comment of a line. -/
lemma Text.Indented.margin {t t' : Text} (h : Indented R t t') : ∃ w w' u, R.indents w w' ∧
    gap true true t = blankTrivia w ++ commentTrivia u ∧
    gap true true t' = blankTrivia w' ++ commentTrivia u ∧
    t.drop (gapLength true true t) = u.drop (Trivia.concat (commentTrivia u)).length ∧
    Tail R (t.drop (gapLength true true t)) (t'.drop (gapLength true true t')) := by
  obtain ⟨w, w', u, u', rfl, rfl, hw, hu, ht⟩ := h
  obtain ⟨hblank, hblank'⟩ := R.blank hw
  have hu' := ht.unspaced hu
  have hcomment : commentTrivia u = commentTrivia u' := by
    rcases ht.sameLine with rfl | hsame
    · rfl
    · exact commentTrivia_eq hsame
  have hcut := drop_gapLength_append hblank hu
  have hcut' := drop_gapLength_append hblank' hu'
  refine ⟨w, w', u, hw, gap_append hblank hu, ?_, hcut, ?_⟩
  · rw [gap_append hblank' hu', hcomment]
  · rw [hcut, hcut', ← hcomment]
    exact ht.drop (length_concat_commentTrivia_le u)

lemma Text.Indented.skipped {t t' : Text} (h : Indented R t t') : Skipped R t t' := by
  induction t using skipped_induction generalizing t' with
  | here t hn =>
    obtain ⟨w, w', u, hw, hgap, hgap', hcut, ht⟩ := h.margin
    have hn' : lineBreak? (t'.drop (gapLength true true t')) = none := by
      rw [← Option.not_isSome_iff_eq_none, ← ht.isSome_lineBreak?, hn]
      simp
    rw [← contentOf_of_none hn, ← contentOf_of_none hn'] at ht
    rw [← contentOf_of_none hn] at hcut
    have hnone : leadingBlankLine? (lineTrivia t) = none := by
      rw [lineTrivia_of_none hn, leadingBlankLine?_gap]
    have hnone' : leadingBlankLine? (lineTrivia t') = none := by
      rw [lineTrivia_of_none hn', leadingBlankLine?_gap]
    refine ⟨ht, fun hne => ?_, by rw [hnone, hnone'], fun hb => by simp [hnone] at hb, fun hR => ?_⟩
    · have hcomment : commentTrivia u = [] :=
        commentTrivia_eq_nil (hcut ▸ hne) (hcut ▸ lineBreak?_contentOf t)
      rw [lineTrivia_of_none hn, lineTrivia_of_none hn', hgap, hgap', hcomment, List.append_nil,
        List.append_nil, indentationOf_blankTrivia_of_blank (R.blank hw).1,
        indentationOf_blankTrivia_of_blank (R.blank hw).2]
      exact R.measure hw
    · rw [lineTrivia_of_none hn, lineTrivia_of_none hn', hgap, hgap', List.map_append,
        List.map_append, kinds_blankTrivia hw hR]
  | skip t n hn ih =>
    obtain ⟨w, w', u, hw, hgap, hgap', -, ht⟩ := h.margin
    obtain ⟨b, b', r, r', hleft, hright, hbreaks, hlen, hlen', hrest⟩ := ht.ends hn
    obtain rfl : n = b.length := by simpa [hn] using hlen
    have htrivia : lineTrivia t = gap true true t ++ ⟨.newline, b⟩ :: lineTrivia r := by
      rw [lineTrivia_of_some hn, hleft, List.take_left, List.drop_left]
    have htrivia' : lineTrivia t' = gap true true t' ++ ⟨.newline, b'⟩ :: lineTrivia r' := by
      rw [lineTrivia_of_some hlen', hright, List.take_left, List.drop_left]
    rw [hleft, List.drop_left] at ih
    have hskipped := ih hrest
    refine ⟨?_, fun hne => ?_, ?_, ?_, fun hR => ?_⟩
    · rw [contentOf_of_some hn, contentOf_of_some hlen', hleft, hright, List.drop_left,
        List.drop_left]
      exact hskipped.content
    · rw [contentOf_of_some hn, hleft, List.drop_left] at hne
      rw [htrivia, htrivia', indentationOf_skip, indentationOf_skip]
      exact hskipped.width hne
    · rw [htrivia, htrivia', hgap, hgap', isSome_leadingBlankLine?, isSome_leadingBlankLine?]
    · intro c c' s s' hc hc' h1 h2
      rw [htrivia] at hc
      rw [htrivia'] at hc'
      rw [behind_blankLine hc hleft h1, behind_blankLine hc' hright h2]
      exact .inl hrest
    · rw [htrivia, htrivia', hgap, hgap']
      simp only [List.map_append, List.map_cons, kinds_blankTrivia hw hR, hskipped.kinds hR]

lemma Text.Lines.skipped {t t' : Text} (h : Lines R t t') : Skipped R t t' := by
  rcases h with h | ⟨rfl, hnil⟩
  · exact h.skipped
  · have hblank : ∀ c ∈ t, isBlank c = true := by
      simpa [dropBlanks, List.dropWhile_eq_nil_iff] using hnil
    have hdrop : t.drop (gapLength true true t) = [] := by
      simpa using drop_gapLength_append hblank (u := []) (by simp [Unspaced])
    have hn : lineBreak? (t.drop (gapLength true true t)) = none := by simp [hdrop, lineBreak?]
    have hcontent : contentOf t = [] := by rw [contentOf_of_none hn, hdrop]
    have hnone : leadingBlankLine? (lineTrivia t) = none := by
      rw [lineTrivia_of_none hn, leadingBlankLine?_gap]
    refine ⟨?_, fun hne => absurd hcontent hne, rfl, fun hb => by simp [hnone] at hb, fun _ => rfl⟩
    rw [hcontent]
    exact .nil

/-! ### Plans -/

/-- Two lines stand to their blocks in the same way. -/
inductive EntryLike (R : Restyling) : Entry → Entry → Prop where
  | level : EntryLike R .level .level
  | deeper {w w' : Nat} : R.widths w w' → EntryLike R (.deeper w) (.deeper w')
  | mismatch : EntryLike R .mismatch .mismatch

/-- Two plans ask for the same tokens at the positions `n` and `n'`. -/
structure PlanLike (R : Restyling) (n n' : Nat) (p p' : LinePlan) : Prop where
  dedents : p.dedents = p'.dedents
  blank : (p.blankAt? n).isSome = (p'.blankAt? n').isSome
  entry : EntryLike R p.entry p'.entry

namespace PlanLike

variable {n n' : Nat} {p p' : LinePlan} (h : PlanLike R n n' p p')
include h

lemma blank_eq_none (hb : p.blankAt? n = none) : p'.blankAt? n' = none := by
  rw [← Option.not_isSome_iff_eq_none, ← h.blank, hb]
  simp

lemma blank_eq_some {r : Range} (hb : p.blankAt? n = some r) : ∃ r', p'.blankAt? n' = some r' := by
  rw [← Option.isSome_iff_exists, ← h.blank, hb]
  rfl

lemma entry_eq_level (he : p.entry = .level) : p'.entry = .level := by
  have hentry := h.entry
  rw [he] at hentry
  generalize p'.entry = e at hentry
  cases hentry
  rfl

lemma entry_eq_deeper {w : Nat} (he : p.entry = .deeper w) :
    ∃ w', p'.entry = .deeper w' ∧ R.widths w w' := by
  have hentry := h.entry
  rw [he] at hentry
  generalize p'.entry = e at hentry
  cases hentry
  exact ⟨_, rfl, ‹_›⟩

lemma entry_eq_mismatch (he : p.entry = .mismatch) : p'.entry = .mismatch := by
  have hentry := h.entry
  rw [he] at hentry
  generalize p'.entry = e at hentry
  cases hentry
  rfl

end PlanLike

lemma forall₂_takeWhile_le {ws ws' : List Nat} (h : List.Forall₂ R.widths ws ws') {w w' : Nat}
    (hw : R.widths w w') :
    List.Forall₂ R.widths (ws.takeWhile (· ≤ w)) (ws'.takeWhile (· ≤ w')) := by
  induction h with
  | nil => exact .nil
  | cons hab _ ih =>
    rw [List.takeWhile_cons, List.takeWhile_cons]
    simp only [R.le_iff hab hw]
    split
    · exact .cons hab ih
    · exact .nil

lemma widths_getLastD {ws ws' : List Nat} (h : List.Forall₂ R.widths ws ws') {w w' : Nat}
    (hw : R.widths w w') : R.widths (ws.getLastD w) (ws'.getLastD w') := by
  induction h generalizing w w' with
  | nil => exact hw
  | cons hab _ ih =>
    rw [List.getLastD_cons, List.getLastD_cons]
    exact ih hab

lemma Text.Tail.closesBlocks_eq {t t' : Text} (h : Tail R t t') :
    closesBlocks t = closesBlocks t' := by
  rcases h.sameLine with rfl | h
  · rfl
  · exact DialogueScript.closesBlocks_eq h

lemma isSome_blankAt?_planLine (config : Config) (stack : IndentStack) (n : Nat) (t : Text) :
    ((planLine config stack n t).blankAt? n).isSome =
      (leadingBlankLine? (lineTrivia t)).isSome := by
  rw [planLine_eq, LinePlan.blankAt?]
  cases leadingBlankLine? (lineTrivia t) <;> simp [Range.ofSize]

lemma planLine_like {config : Config} (htab : config.tabWidth = R.tabWidth)
    {stack stack' : IndentStack} (hstack : List.Forall₂ R.widths stack.widths stack'.widths)
    {t t' : Text} (h : Lines R t t') (n n' : Nat) :
    PlanLike R n n' (planLine config stack n t) (planLine config stack' n' t') := by
  obtain ⟨hcontent, hwidth, hblank, -, -⟩ := h.skipped
  have hcloses := hcontent.closesBlocks_eq
  have hdepth : stack.depth = stack'.depth := hstack.length_eq
  rw [← isSome_blankAt?_planLine config stack n, ← isSome_blankAt?_planLine config stack' n']
    at hblank
  suffices hentry : (planLine config stack n t).dedents = (planLine config stack' n' t').dedents ∧
      EntryLike R (planLine config stack n t).entry (planLine config stack' n' t').entry from
    ⟨hentry.1, hblank, hentry.2⟩
  simp only [planLine_eq, lineEntry, htab]
  rw [← hcloses]
  cases hc : closesBlocks (contentOf t)
  · have hne : contentOf t ≠ [] := by
      intro hnil
      simp [closesBlocks, hnil] at hc
    have hw := hwidth hne
    generalize IndentStack.measure R.tabWidth (indentationOf (lineTrivia t)) = w,
      IndentStack.measure R.tabWidth (indentationOf (lineTrivia t')) = w' at hw
    have hkept := forall₂_takeWhile_le hstack hw
    have htop := widths_getLastD hkept R.zero
    rw [← IndentStack.kept, ← IndentStack.kept] at hkept htop
    have hlen := hkept.length_eq
    have heq := R.eq_iff htop hw
    have hlt := R.lt_iff htop hw
    simp only [Bool.false_eq_true, if_false, ← hdepth, ← hlen, ne_eq, heq, hlt, true_and]
    split
    · exact .mismatch
    · split
      · exact .deeper hw
      · exact .level
  · exact ⟨hdepth, .level⟩

end DialogueScript
