import DialogueScript.Proofs.Scanner.Lexeme
import DialogueScript.Scanner.Layout

/-!
Trivia is a part of the text it was read from: blanks and a comment are a part of the first line,
and skipped lines lead to the first line with content. What the indentation of a line asks for
depends on the text up to the end of that line only.
-/

namespace DialogueScript

namespace Trivia

@[simp] lemma concat_nil : concat [] = [] := rfl

@[simp] lemma concat_cons (p : Trivia) (ps : List Trivia) :
    concat (p :: ps) = p.text ++ concat ps := rfl

@[simp] lemma concat_append (ps qs : List Trivia) : concat (ps ++ qs) = concat ps ++ concat qs := by
  simp [concat]

end Trivia

/-- The blank line that some skipped lines begin with. -/
def leadingBlankLine? : List Trivia → Option Text
  | ⟨.newline, b⟩ :: _ => some b
  | ⟨.whitespace, w⟩ :: ⟨.newline, b⟩ :: _ => some (w ++ b)
  | _ => none

/-- The blanks in front of the line that some skipped lines lead to. -/
def indentationOf (trivia : List Trivia) : Text :=
  match trivia.getLast? with
  | some ⟨.whitespace, w⟩ => w
  | _ => []

/-! ### Blanks and comments -/

lemma concat_blankTrivia (t : Text) : Trivia.concat (blankTrivia t) = t.takeWhile isBlank := by
  unfold blankTrivia
  split <;> simp_all

lemma indentationOf_blankTrivia (t : Text) :
    indentationOf (blankTrivia t) = t.takeWhile isBlank := by
  unfold blankTrivia
  split
  · next h => rw [h]; rfl
  · rfl

lemma concat_commentTrivia (t : Text) :
    Trivia.concat (commentTrivia t) = if Text.startsComment t then Text.firstLine t else [] := by
  unfold commentTrivia
  split <;> simp

/-- The characters that blanks and a comment take. -/
def gapLength (blanks comments : Bool) (t : Text) : Nat :=
  (Trivia.concat (gap blanks comments t)).length

section
variable (blanks comments : Bool) (t : Text)

lemma gapLength_le : gapLength blanks comments t ≤ (Text.firstLine t).length := by
  have hb := Text.length_takeWhile_le_firstLine Text.not_isBlank_of_break t
  simp only [gapLength, gap, Trivia.concat_append]
  cases blanks
  · cases comments
    · simp
    · simp only [Bool.false_eq_true, if_false, if_true, Trivia.concat_nil, List.length_nil,
        List.drop_zero, List.nil_append, concat_commentTrivia]
      split <;> simp
  · cases comments
    · simpa [concat_blankTrivia] using hb
    · simp only [if_true, concat_blankTrivia, concat_commentTrivia, List.length_append]
      have hd := Text.firstLine_drop hb
      split
      · rw [hd, List.length_drop]
        omega
      · simpa using hb

lemma concat_gap :
    Trivia.concat (gap blanks comments t) = t.take (gapLength blanks comments t) := by
  have hpre : ∀ {p : Text}, p <+: t → p = t.take p.length := fun h => List.prefix_iff_eq_take.1 h
  refine hpre ?_
  have hb : t.takeWhile isBlank <+: t := List.takeWhile_prefix _
  simp only [gap, Trivia.concat_append]
  have hfirst : Trivia.concat (if blanks then blankTrivia t else []) <+: t := by
    cases blanks
    · simp
    · simpa [concat_blankTrivia] using hb
  generalize Trivia.concat (if blanks then blankTrivia t else []) = p at hfirst
  obtain ⟨u, rfl⟩ := hfirst
  rw [List.prefix_append_right_inj, List.drop_left]
  cases comments
  · simp
  · simp only [if_true, concat_commentTrivia]
    split
    · exact List.takeWhile_prefix _
    · simp

omit blanks comments t in
lemma commentTrivia_eq {E : Text → Text → Prop} {t t' : Text} (h : Text.SameLine E t t') :
    commentTrivia t = commentTrivia t' := by
  simp only [commentTrivia, h.startsComment_eq, h.firstLine_eq]

lemma gap_eq {E : Text → Text → Prop} {t t' : Text} (h : Text.SameLine E t t') :
    gap blanks comments t = gap blanks comments t' := by
  have hb := h.takeWhile_eq Text.not_isBlank_of_break
  have h1 : blankTrivia t = blankTrivia t' := by simp only [blankTrivia, hb]
  cases blanks
  · simp only [gap, Bool.false_eq_true, if_false, Trivia.concat_nil, List.length_nil,
      List.drop_zero, commentTrivia_eq h]
  · have hle := Text.length_takeWhile_le_firstLine Text.not_isBlank_of_break t
    simp only [gap, if_true, ← h1, concat_blankTrivia, commentTrivia_eq (h.drop hle)]

end

/-- Where blanks and comments are over, there are no more of them. -/
lemma gap_drop_gapLength (t : Text)
    (h : Text.lineBreak? (t.drop (gapLength true true t)) = none) :
    gap true true (t.drop (gapLength true true t)) = [] := by
  have hd : t.drop (t.takeWhile isBlank).length = t.dropWhile isBlank := by
    have := List.takeWhile_append_dropWhile (p := isBlank) (l := t)
    generalize t.takeWhile isBlank = u, t.dropWhile isBlank = w at this
    rw [← this, List.drop_left]
  have hdrop : t.drop (gapLength true true t) = (t.dropWhile isBlank).drop
      (Trivia.concat (commentTrivia (t.dropWhile isBlank))).length := by
    rw [← hd, List.drop_drop, hd]
    simp [gapLength, gap, concat_blankTrivia, hd]
  rw [hdrop] at h ⊢
  cases hc : Text.startsComment (t.dropWhile isBlank)
  · simp [hc, gap, blankTrivia, Text.unspaced_iff.1 (Text.unspaced_dropWhile t), commentTrivia]
  · -- behind a comment there is the end of the line
    rw [concat_commentTrivia, hc, if_pos rfl] at h ⊢
    by_cases hne : (t.dropWhile isBlank).drop (Text.firstLine (t.dropWhile isBlank)).length = []
    · rw [hne]
      rfl
    · have := Text.lineBreak?_drop_firstLine _ hne
      simp [h] at this

/-! ### Skipped lines -/

/-- The text from the first line with content on, without its indentation. -/
def contentOf (t : Text) : Text := t.drop (Trivia.concat (lineTrivia t)).length

lemma lineTrivia_of_none {t : Text} (h : Text.lineBreak? (t.drop (gapLength true true t)) = none) :
    lineTrivia t = gap true true t := by
  rw [lineTrivia]
  split
  · rfl
  · next heq => simp [gapLength] at h; simp [h] at heq

lemma lineTrivia_of_some {t : Text} {n : Nat}
    (h : Text.lineBreak? (t.drop (gapLength true true t)) = some n) :
    lineTrivia t = gap true true t ++ ⟨.newline, (t.drop (gapLength true true t)).take n⟩ ::
      lineTrivia ((t.drop (gapLength true true t)).drop n) := by
  rw [lineTrivia]
  split
  · next heq => simp [gapLength] at h; simp [h] at heq
  · next m heq =>
    simp only [gapLength] at h
    obtain rfl : m = n := by rw [h] at heq; simpa using heq.symm
    rfl

/-- Induction over the lines that are skipped at the start of a text. -/
lemma skipped_induction {motive : Text → Prop}
    (here : ∀ t, Text.lineBreak? (t.drop (gapLength true true t)) = none → motive t)
    (skip : ∀ t n, Text.lineBreak? (t.drop (gapLength true true t)) = some n →
      motive ((t.drop (gapLength true true t)).drop n) → motive t) (t : Text) : motive t := by
  induction hn : t.length using Nat.strong_induction_on generalizing t with
  | _ k ih =>
    rcases hb : Text.lineBreak? (t.drop (gapLength true true t)) with _ | n
    · exact here t hb
    · refine skip t n hb (ih _ ?_ _ rfl)
      have h1 := Text.lineBreak?_le hb
      have h2 := (lineBreak?_pos hb).1
      simp only [List.length_drop] at h1 ⊢
      omega

lemma contentOf_of_none {t : Text} (h : Text.lineBreak? (t.drop (gapLength true true t)) = none) :
    contentOf t = t.drop (gapLength true true t) := by
  rw [contentOf, lineTrivia_of_none h]
  rfl

lemma contentOf_of_some {t : Text} {n : Nat}
    (h : Text.lineBreak? (t.drop (gapLength true true t)) = some n) :
    contentOf t = contentOf ((t.drop (gapLength true true t)).drop n) := by
  have hn := Text.lineBreak?_le h
  rw [contentOf, lineTrivia_of_some h, contentOf]
  simp only [Trivia.concat_append, Trivia.concat_cons, List.length_append, List.length_take,
    Nat.min_eq_left hn, List.drop_drop, Nat.add_assoc]
  rfl

/-- **Skipped lines and the content after them are the whole text.** -/
lemma concat_lineTrivia (t : Text) : Trivia.concat (lineTrivia t) ++ contentOf t = t := by
  induction t using skipped_induction with
  | here t h =>
    rw [contentOf_of_none h, lineTrivia_of_none h, concat_gap, List.take_append_drop]
  | skip t n h ih =>
    rw [contentOf_of_some h, lineTrivia_of_some h]
    simp only [Trivia.concat_append, Trivia.concat_cons, List.append_assoc, ih, concat_gap,
      List.take_append_drop]

lemma lineBreak?_contentOf (t : Text) : Text.lineBreak? (contentOf t) = none := by
  induction t using skipped_induction with
  | here t h => rwa [contentOf_of_none h]
  | skip t n h ih => rwa [contentOf_of_some h]

lemma lineTrivia_contentOf (t : Text) : lineTrivia (contentOf t) = [] := by
  induction t using skipped_induction with
  | here t h =>
    rw [contentOf_of_none h]
    have hgap := gap_drop_gapLength t h
    have hlen : gapLength true true (t.drop (gapLength true true t)) = 0 := by
      rw [gapLength, hgap]
      rfl
    rw [lineTrivia_of_none (by rwa [hlen, List.drop_zero]), hgap]
  | skip t n h ih => rwa [contentOf_of_some h]

lemma contentOf_contentOf (t : Text) : contentOf (contentOf t) = contentOf t := by
  rw [contentOf, lineTrivia_contentOf]
  rfl

lemma contentOf_length_le (t : Text) : (contentOf t).length ≤ t.length := by
  simp [contentOf]

/-- What the first line with content ends with stands within the end of the first line. -/
lemma lineTail_contentOf_le (t : Text) : Text.lineTail (contentOf t) ≤ Text.lineTail t := by
  induction t using skipped_induction with
  | here t h =>
    rw [contentOf_of_none h, Text.lineTail_drop (gapLength_le true true t)]
  | skip t n h ih =>
    have h1 := Text.lineTail_drop (gapLength_le true true t)
    have h2 := Text.lineTail_of_lineBreak? h
    have h3 := Text.lineTail_le ((t.drop (gapLength true true t)).drop n)
    rw [contentOf_of_some h]
    omega

/-- Skipped lines are the same in two texts that agree up to the end of the first line with
content, and so is that line. -/
lemma lineTrivia_eq (x : Text) {v v' : Text}
    (h : Text.Hides v v' (Text.lineTail (contentOf (x ++ v)))) :
    lineTrivia (x ++ v) = lineTrivia (x ++ v') ∧
      Text.SameLine Text.SameBreak (contentOf (x ++ v)) (contentOf (x ++ v')) := by
  induction hn : x.length using Nat.strong_induction_on generalizing x with
  | _ k ih =>
    have hsame : Text.SameLine Text.SameBreak (x ++ v) (x ++ v') :=
      .of_hides x (h.mono (lineTail_contentOf_le _))
    have hgap := gap_eq true true hsame
    have hlen : gapLength true true (x ++ v) = gapLength true true (x ++ v') := by
      simp only [gapLength, hgap]
    have hdrop := hsame.drop (gapLength_le true true _)
    have hbreak := hdrop.lineBreak?_eq
    rcases hb : Text.lineBreak? ((x ++ v).drop (gapLength true true (x ++ v))) with _ | n
    · have hb' : Text.lineBreak? ((x ++ v').drop (gapLength true true (x ++ v'))) = none := by
        rw [← hlen, ← hbreak, hb]
      rw [lineTrivia_of_none hb, lineTrivia_of_none hb', contentOf_of_none hb,
        contentOf_of_none hb', ← hlen]
      exact ⟨hgap, hdrop⟩
    · have hb' : Text.lineBreak? ((x ++ v').drop (gapLength true true (x ++ v'))) = some n := by
        rw [← hlen, ← hbreak, hb]
      rw [contentOf_of_some hb] at h
      -- the line break lies before `v`
      have hx : gapLength true true (x ++ v) + n ≤ x.length := by
        have h0 := h.lt
        have h1 := Text.lineTail_le
          (contentOf (((x ++ v).drop (gapLength true true (x ++ v))).drop n))
        have h2 := contentOf_length_le (((x ++ v).drop (gapLength true true (x ++ v))).drop n)
        simp only [List.length_drop, List.length_append] at h2
        omega
      have hpos := (lineBreak?_pos hb).1
      have hcut : ∀ w : Text, ((x ++ w).drop (gapLength true true (x ++ v))).drop n =
          x.drop (gapLength true true (x ++ v) + n) ++ w := by
        intro w
        rw [List.drop_drop, List.drop_append_of_le_length hx]
      have htake : ∀ w : Text, ((x ++ w).drop (gapLength true true (x ++ v))).take n =
          (x.drop (gapLength true true (x ++ v))).take n := by
        intro w
        rw [List.drop_append_of_le_length (by omega), List.take_append_of_le_length]
        rw [List.length_drop]
        omega
      rw [hcut] at h
      obtain ⟨h1, h2⟩ := ih _ (by rw [List.length_drop]; omega) _ h rfl
      rw [lineTrivia_of_some hb, lineTrivia_of_some hb', contentOf_of_some hb,
        contentOf_of_some hb', ← hlen, hcut, hcut, htake, htake, hgap, h1]
      exact ⟨rfl, h2⟩

/-! ### Blank lines and indentation -/

lemma leadingBlankLine?_gap (t : Text) : leadingBlankLine? (gap true true t) = none := by
  simp only [gap, if_true, blankTrivia, commentTrivia]
  split <;> split <;> rfl

lemma eq_of_leadingBlankLine? {t x b : Text} {ps : List Trivia}
    (h : leadingBlankLine? (gap true true t ++ ⟨.newline, x⟩ :: ps) = some b) :
    b = Trivia.concat (gap true true t) ++ x := by
  simp only [gap, if_true, blankTrivia, commentTrivia] at h ⊢
  split at h <;> split at h <;> simp_all [leadingBlankLine?]

/-- The indentation is that of the last line. -/
lemma indentationOf_skip (ps qs : List Trivia) (x : Text) :
    indentationOf (ps ++ ⟨.newline, x⟩ :: qs) = indentationOf qs := by
  rcases qs with _ | ⟨q, qs⟩
  · simp [indentationOf]
  · simp only [indentationOf]
    rw [List.getLast?_append, List.getLast?_cons_cons]
    simp [List.getLast?_cons]

/-- A blank line at the start of some skipped lines is the first of them. -/
lemma leadingBlankLine?_spec {t b : Text} (h : leadingBlankLine? (lineTrivia t) = some b) :
    ∃ t', b ≠ [] ∧ t = b ++ t' ∧ contentOf t = contentOf t' ∧
      indentationOf (lineTrivia t) = indentationOf (lineTrivia t') := by
  rcases hb : Text.lineBreak? (t.drop (gapLength true true t)) with _ | n
  · rw [lineTrivia_of_none hb, leadingBlankLine?_gap] at h
    simp at h
  · rw [lineTrivia_of_some hb] at h
    obtain rfl := eq_of_leadingBlankLine? h
    have hpos := (lineBreak?_pos hb).1
    have hle := Text.lineBreak?_le hb
    refine ⟨(t.drop (gapLength true true t)).drop n, ?_, ?_, contentOf_of_some hb, ?_⟩
    · intro hnil
      have := congrArg List.length (List.append_eq_nil_iff.1 hnil).2
      rw [List.length_take, Nat.min_eq_left hle, List.length_nil] at this
      omega
    · rw [concat_gap, List.append_assoc, List.take_append_drop, List.take_append_drop]
    · rw [lineTrivia_of_some hb, indentationOf_skip]

/-- Behind a blank line the trivia in front of the content goes on. -/
lemma concat_lineTrivia_append {t b t' : Text} (h : t = b ++ t') (hc : contentOf t = contentOf t') :
    Trivia.concat (lineTrivia t) = b ++ Trivia.concat (lineTrivia t') := by
  have hsame : Trivia.concat (lineTrivia t) ++ contentOf t =
      b ++ Trivia.concat (lineTrivia t') ++ contentOf t := by
    rw [concat_lineTrivia, hc, List.append_assoc, concat_lineTrivia, h]
  exact List.append_cancel_right hsame

/-! ### The search for content -/

lemma gap_eq_append (t : Text) : gap true true t =
    blankTrivia t ++ commentTrivia (t.drop (t.takeWhile isBlank).length) := by
  simp [gap, concat_blankTrivia]

lemma drop_gapLength (t : Text) : t.drop (gapLength true true t) =
    (t.drop (t.takeWhile isBlank).length).drop
      (if Text.startsComment (t.drop (t.takeWhile isBlank).length) then
        Text.firstLine (t.drop (t.takeWhile isBlank).length) else []).length := by
  rw [gapLength, gap_eq_append, Trivia.concat_append, concat_blankTrivia, concat_commentTrivia,
    List.length_append, List.drop_drop]

lemma firstLine_ne_nil_of_startsComment {t : Text} (h : Text.startsComment t = true) :
    Text.firstLine t ≠ [] := by
  obtain ⟨u, rfl⟩ := Text.startsComment_iff.1 h
  simp [Text.firstLine, isLineBreak]

lemma indentationOf_comment (ps : List Trivia) (c : Text) :
    indentationOf (ps ++ [⟨.comment, c⟩]) = [] := by
  simp [indentationOf]

lemma leadingBlankLine?_blank (t x : Text) (ps : List Trivia) :
    leadingBlankLine? (blankTrivia t ++ ⟨.newline, x⟩ :: ps) = some (t.takeWhile isBlank ++ x) := by
  unfold blankTrivia
  split
  · next h => rw [h]; rfl
  · rfl

lemma leadingBlankLine?_comment (t c : Text) (ps : List Trivia) :
    leadingBlankLine? (blankTrivia t ++ ⟨.comment, c⟩ :: ps) = none := by
  unfold blankTrivia
  split <;> rfl

section
variable (position : Nat) (first : Bool) (blank : Option Range) {t line : Text}
  (hline : t.drop (t.takeWhile isBlank).length = line)
include hline

lemma findContent_of_content (hc : Text.startsComment line = false)
    (hb : Text.lineBreak? line = none) : findContent position first blank t =
      ⟨position + Text.size (t.takeWhile isBlank), line, t.takeWhile isBlank, blank⟩ := by
  rw [findContent]
  simp [hline, hc, hb]

lemma findContent_of_end (hc : Text.startsComment line = true)
    (hb : Text.lineBreak? (line.drop (Text.firstLine line).length) = none) :
    findContent position first blank t =
      ⟨position + Text.size (t.takeWhile isBlank) + Text.size (Text.firstLine line),
        line.drop (Text.firstLine line).length, [], blank⟩ := by
  rw [findContent]
  simp only [hline, hc, Bool.not_true, Bool.false_and, Bool.false_eq_true, if_false, if_true]
  split
  · rfl
  · next heq =>
    rw [hline, hc, if_pos rfl, hb] at heq
    contradiction

lemma findContent_of_skip {n : Nat} {comment : Text}
    (hc : (if Text.startsComment line then Text.firstLine line else []) = comment)
    (hb : Text.lineBreak? (line.drop comment.length) = some n) :
    findContent position first blank t =
      let next := position + Text.size (t.takeWhile isBlank) + Text.size comment +
        Text.size ((line.drop comment.length).take n)
      findContent next false (if first && comment.isEmpty then some ⟨position, next⟩ else blank)
        ((line.drop comment.length).drop n) := by
  rw [findContent]
  simp only [hline, hc]
  have hnot : (!Text.startsComment line && (Text.lineBreak? line).isNone) = false := by
    cases h : Text.startsComment line
    · obtain rfl : comment = [] := by simpa [h] using hc.symm
      simp only [List.length_nil, List.drop_zero] at hb
      simp [hb]
    · rfl
  rw [hnot, if_neg Bool.false_ne_true]
  split
  · next heq =>
    rw [hline, hc, hb] at heq
    contradiction
  · next m heq =>
    rw [hline, hc, hb, Option.some.injEq] at heq
    rw [heq]

end

/-- **The search finds the content behind the skipped lines**: it passes over exactly the trivia
that a token there gets, and remembers the blank line that this trivia begins with. -/
lemma findContent_eq (position : Nat) (first : Bool) (blank : Option Range) (t : Text) :
    findContent position first blank t =
      { position := position + Text.size (Trivia.concat (lineTrivia t))
        rest := contentOf t
        indentation := indentationOf (lineTrivia t)
        blank :=
          if first then
            ((leadingBlankLine? (lineTrivia t)).map fun b => .ofSize position (Text.size b)).or
              blank
          else blank } := by
  induction t using skipped_induction generalizing position first blank with
  | here t h =>
    rw [lineTrivia_of_none h, contentOf_of_none h, leadingBlankLine?_gap]
    rw [drop_gapLength] at h ⊢
    rw [gap_eq_append]
    generalize hline : t.drop (t.takeWhile isBlank).length = line at h ⊢
    cases hc : Text.startsComment line
    · simp only [hc, Bool.false_eq_true, if_false, List.length_nil, List.drop_zero] at h ⊢
      rw [findContent_of_content _ _ _ hline hc h]
      simp [commentTrivia, hc, concat_blankTrivia, indentationOf_blankTrivia]
    · simp only [hc, if_true] at h ⊢
      rw [findContent_of_end _ _ _ hline hc h]
      simp [commentTrivia, hc, concat_blankTrivia, indentationOf_comment, Nat.add_assoc]
  | skip t n h ih =>
    rw [lineTrivia_of_some h, contentOf_of_some h, indentationOf_skip]
    rw [drop_gapLength] at h ih ⊢
    rw [gap_eq_append]
    generalize hline : t.drop (t.takeWhile isBlank).length = line at h ih ⊢
    rw [findContent_of_skip _ _ _ hline rfl h]
    simp only [ih]
    cases hc : Text.startsComment line
    · simp [commentTrivia, hc, concat_blankTrivia, leadingBlankLine?_blank, Range.ofSize, Text.size,
        Nat.add_assoc]
    · have hne : Text.firstLine line ≠ [] := firstLine_ne_nil_of_startsComment hc
      simp [commentTrivia, hc, hne, concat_blankTrivia, leadingBlankLine?_comment, Nat.add_assoc]

/-! ### Plans -/

lemma closesBlocks_eq {E : Text → Text → Prop} {t t' : Text} (h : Text.SameLine E t t') :
    closesBlocks t = closesBlocks t' := by
  have h1 : t.isEmpty = t'.isEmpty := by
    rw [List.isEmpty_eq_false_iff.2 h.ne_nil.1, List.isEmpty_eq_false_iff.2 h.ne_nil.2]
  unfold closesBlocks
  rw [h1, h.startsWith_eq (by decide), headerKeyword?_eq h]

/-- The blocks that a line closes, and how it stands to the ones that stay open. -/
def lineEntry (config : Config) (stack : IndentStack) (indentation content : Text) : Nat × Entry :=
  if closesBlocks content then (stack.depth, .level)
  else
    let width := IndentStack.measure config.tabWidth indentation
    let kept := stack.kept width
    let dedents := stack.depth - kept.length
    let top := kept.getLastD 0
    (dedents, if 0 < dedents && top ≠ width then .mismatch
      else if top < width then .deeper width else .level)

/-- **A plan agrees with the trivia of the line's first token**: its content starts where that
trivia ends, its blank line is the one that trivia begins with, and the indentation is what that
trivia ends with. -/
lemma planLine_eq (config : Config) (stack : IndentStack) (offset : Nat) (t : Text) :
    planLine config stack offset t =
      { content := offset + Text.size (Trivia.concat (lineTrivia t))
        dedents := (lineEntry config stack (indentationOf (lineTrivia t)) (contentOf t)).1
        blank := (leadingBlankLine? (lineTrivia t)).map fun b => .ofSize offset (Text.size b)
        entry := (lineEntry config stack (indentationOf (lineTrivia t)) (contentOf t)).2 } := by
  simp only [planLine, findContent_eq, lineEntry, if_true, Option.or_none]
  split_ifs <;> rfl

lemma planLine_hides (config : Config) (stack : IndentStack) (offset : Nat) (x : Text) {v v' : Text}
    (h : Text.Hides v v' (Text.lineTail (contentOf (x ++ v)))) :
    planLine config stack offset (x ++ v) = planLine config stack offset (x ++ v') := by
  obtain ⟨h1, h2⟩ := lineTrivia_eq x h
  simp only [planLine_eq, lineEntry, closesBlocks_eq h2, h1]

end DialogueScript
