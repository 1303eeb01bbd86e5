import DialogueScript.Proofs.Scanner.Indent
import DialogueScript.Proofs.Scanner.LineStart

/-!
Where a text that ends with a whole line is followed by a title. The title closes all blocks as the
end of the text does, and the lines that are skipped in front of the end are skipped in front of the
title.
-/

namespace DialogueScript

namespace Text

/-- Whether a text has no line without a break: it is empty, or its last character is one. -/
def isTerminated (t : Text) : Bool := t.getLast?.all isLineBreak

/-- Whether the first line of a text is a title. -/
def isTitled (t : Text) : Bool := headerKeyword? (dropBlanks t) = some .titleKw

lemma isTerminated_suffix {t t' : Text} (h : t <:+ t') (ht : isTerminated t' = true) :
    isTerminated t = true := by
  obtain ⟨u, rfl⟩ := h
  rcases t.eq_nil_or_concat with rfl | ⟨t, c, rfl⟩
  · rfl
  · rw [List.concat_eq_append] at ht ⊢
    simpa [isTerminated, ← List.append_assoc] using ht

/-- Without a break, there is nothing in a terminated text. -/
lemma eq_nil_of_isTerminated {t : Text} (h : isTerminated t = true) (hline : lineTail t = 0) :
    t = [] := by
  rcases t.eq_nil_or_concat with rfl | ⟨t, c, rfl⟩
  · rfl
  · rw [lineTail, List.length_eq_zero_iff, List.dropWhile_eq_nil_iff] at hline
    have hc := hline c (by simp)
    rw [List.concat_eq_append] at h
    simp [isTerminated] at h
    simp [h] at hc

section
variable {t : Text} (h : isTitled t = true)
include h

lemma content_of_isTitled : Content (dropBlanks t) := by
  rw [isTitled, decide_eq_true_eq] at h
  obtain ⟨cs, hcs⟩ := Lexeme.exists_cons_of_title h
  rw [hcs]
  exact ⟨by simp, by simp [Unspaced, isBlank], rfl, rfl⟩

lemma contentOf_of_isTitled : contentOf t = dropBlanks t := by
  have hall : (t.takeWhile isBlank).all isBlank = true := List.all_takeWhile
  have := contentOf_content hall (content_of_isTitled h)
  rwa [dropBlanks, List.takeWhile_append_dropWhile] at this

lemma lineTrivia_of_isTitled : lineTrivia t = blankTrivia t := by
  have hall : (t.takeWhile isBlank).all isBlank = true := List.all_takeWhile
  have := lineTrivia_content hall (content_of_isTitled h)
  rwa [dropBlanks, List.takeWhile_append_dropWhile] at this

lemma head?_of_isTitled : t.head? ≠ some '\n' := by
  rcases t with _ | ⟨c, cs⟩
  · simp
  · intro hc
    obtain rfl : c = '\n' := by simpa using hc
    exact absurd h (by simp [isTitled, dropBlanks, isBlank, headerKeyword?, word?, isWordStart])

lemma closesBlocks_of_isTitled : closesBlocks (dropBlanks t) = true := by
  rw [isTitled, decide_eq_true_eq] at h
  simp [closesBlocks, h]

end

end Text

lemma Lexeme.next_of_isTitled {t : Text} (h : Text.isTitled t = true) {mode : Mode}
    (hm : mode.isIndentSensitive = true ∨ mode = .header) :
    Lexeme.next mode (Text.dropBlanks t) = spelled .titleKw := by
  obtain ⟨hne, -, hbreak, -⟩ := Text.content_of_isTitled h
  rw [Text.isTitled, decide_eq_true_eq] at h
  have hstatement := statement_of_headerKeyword? h
  have hheader := header_of_headerKeyword? h
  cases mode <;> simp [Mode.isIndentSensitive] at hm <;>
    simp [Lexeme.next, hne, hbreak, hstatement, hheader]

/-! ### Skipped lines in front of a title -/

lemma lineTrivia_nil : lineTrivia [] = [] := lineTrivia_of_none rfl

lemma eq_nil_of_over {w : Text} (hw : Text.isTerminated w = true) (hover : contentOf w = [])
    (h : Text.lineBreak? (w.drop (gapLength true true w)) = none) : w = [] := by
  refine Text.eq_nil_of_isTerminated hw ?_
  rw [← Text.lineTail_drop (gapLength_le true true w), ← contentOf_of_none h, hover,
    Text.lineTail_nil]

section
variable {w t : Text} (hw : Text.isTerminated w = true) (hover : contentOf w = [])
  (ht : t.head? ≠ some '\n')
include hw hover ht

/-- Lines that are skipped at the end of a text are skipped in front of another one. -/
lemma lineTrivia_append : lineTrivia (w ++ t) = lineTrivia w ++ lineTrivia t := by
  induction w using skipped_induction with
  | here w h =>
    obtain rfl := eq_nil_of_over hw hover h
    rw [lineTrivia_nil]
    rfl
  | skip w n h ih =>
    have hle := Text.lineBreak?_le h
    have hpos := (lineBreak?_pos h).1
    rw [contentOf_of_some h] at hover
    have htail : 0 < Text.lineTail w := by
      rw [← Text.lineTail_drop (gapLength_le true true w), Text.lineTail_of_lineBreak? h]
      omega
    have hsame : Text.SameLine Text.SameBreak w (w ++ t) := by
      have : Text.SameLine Text.SameBreak (w ++ []) (w ++ t) :=
        .of_hides w (.inr ⟨by simpa using htail, by simp, ht⟩)
      rwa [List.append_nil] at this
    have hgap := gap_eq true true hsame
    have hlen : gapLength true true (w ++ t) = gapLength true true w := by
      rw [gapLength, ← hgap]
      rfl
    have hbreak : Text.lineBreak? ((w ++ t).drop (gapLength true true (w ++ t))) = some n := by
      rw [hlen, ← (hsame.drop (gapLength_le true true w)).lineBreak?_eq, h]
    have hle' : gapLength true true w ≤ w.length :=
      le_trans (gapLength_le true true w) (Text.firstLine_length_le w)
    rw [lineTrivia_of_some hbreak, lineTrivia_of_some h, hlen, ← hgap,
      List.drop_append_of_le_length hle', List.take_append_of_le_length hle,
      List.drop_append_of_le_length hle, ih ?_ hover]
    · simp
    · exact Text.isTerminated_suffix ((List.drop_suffix _ _).trans (List.drop_suffix _ _)) hw

lemma contentOf_append : contentOf (w ++ t) = contentOf t := by
  have h1 := concat_lineTrivia (w ++ t)
  have h2 := concat_lineTrivia w
  have h3 := concat_lineTrivia t
  rw [hover, List.append_nil] at h2
  rw [lineTrivia_append hw hover ht, Trivia.concat_append, h2, List.append_assoc,
    List.append_right_inj] at h1
  exact List.append_cancel_left (h1.trans h3.symm)

end

lemma leadingBlankLine?_append {w t : Text} (hw : Text.isTerminated w = true)
    (hover : contentOf w = []) (ht : Text.isTitled t = true) :
    leadingBlankLine? (lineTrivia (w ++ t)) = leadingBlankLine? (lineTrivia w) := by
  rw [lineTrivia_append hw hover (Text.head?_of_isTitled ht)]
  rcases hb : Text.lineBreak? (w.drop (gapLength true true w)) with _ | n
  · obtain rfl := eq_nil_of_over hw hover hb
    rw [lineTrivia_nil, Text.lineTrivia_of_isTitled ht]
    unfold blankTrivia
    split <;> rfl
  · rw [lineTrivia_of_some hb]
    simp only [gap, if_true, blankTrivia, commentTrivia]
    split <;> split <;> rfl

/-- **A title closes what the end of the text closes.** -/
lemma planLine_append (config : Config) (stack : IndentStack) {w t : Text}
    (hw : Text.isTerminated w = true) (hover : contentOf w = []) (ht : Text.isTitled t = true)
    (b b' n : Nat) :
    (planLine config stack (b + n) w).Alike b b' (planLine config stack (b' + n) (w ++ t)) := by
  have h1 : closesBlocks (contentOf w) = true := by
    rw [hover]
    rfl
  have h2 : closesBlocks (contentOf (w ++ t)) = true := by
    rw [contentOf_append hw hover (Text.head?_of_isTitled ht), Text.contentOf_of_isTitled ht]
    exact Text.closesBlocks_of_isTitled ht
  have hblank := (planLine_alike config stack b b' n w).blank
  simp only [planLine_eq, lineEntry, h1, h2, if_true] at hblank ⊢
  rw [leadingBlankLine?_append hw hover ht]
  exact ⟨rfl, rfl, hblank⟩

/-! ### Closing the blocks -/

/-- A line at which statements end closes all blocks. -/
lemma closesBlocks_of_kind {mode : Mode} (hm : mode.isIndentSensitive = true) {t : Text}
    (hk : (Lexeme.next mode t).kind = .eof ∨ (Lexeme.next mode t).kind = .bodyEnd ∨
      (Lexeme.next mode t).kind = .titleKw) : closesBlocks t = true := by
  rcases t with _ | ⟨c, cs⟩
  · rfl
  · rcases hb : Text.lineBreak? (c :: cs) with _ | n
    · have hne := (Lexeme.fits_next mode cs (Text.lineBreak?_eq_none hb)).plain.eof
      have hnext : Lexeme.next mode (c :: cs) = Lexeme.statement (c :: cs) := by
        cases mode <;> simp [Mode.isIndentSensitive] at hm <;> simp [Lexeme.next, hb]
      rw [hnext] at hk hne
      rcases Lexeme.statement_spells (hk.resolve_left hne).symm rfl with ⟨-, h⟩ | ⟨-, h⟩
      · simp [closesBlocks, h]
      · have : Text.startsWith (c :: cs) "===" = true := h
        simp [closesBlocks, this]
    · simp [Lexeme.next_of_lineBreak? mode hb] at hk

namespace Scanner

variable {s s' : Scanner}

/-- The plan of a line that closes all blocks asks for just that. -/
def ClosesAll (s : Scanner) : Prop :=
  ∀ p, s.line = some p → closesBlocks (contentOf s.rest) = true →
  p.dedents = s.stack.depth ∧ p.entry = .level

lemma ClosesAll.settle (h : s.ClosesAll) (mode : Mode) : (s.settle mode).ClosesAll := by
  cases hm : mode.isIndentSensitive
  · rwa [settle_of_insensitive s hm]
  · intro p hline hcloses
    rw [settle_of_sensitive s hm] at hline hcloses ⊢
    simp only at hline hcloses ⊢
    split at hline
    · simp only [Option.some.injEq] at hline
      rw [← hline]
      simp [planLine_eq, lineEntry, hcloses]
    · exact h p hline hcloses

lemma Takes.closesAll {mode : Mode} {l : Lexed} (ht : Takes s mode l s')
    (h : s.ClosesAll) : s'.ClosesAll := by
  intro q hq hcloses
  cases ht with
  | dedent p hline hd =>
    obtain ⟨h1, h2⟩ := h p hline hcloses
    obtain rfl := Option.some.inj hq
    refine ⟨?_, h2⟩
    simp only [h1, IndentStack.depth, IndentStack.pop, List.length_dropLast]
  | blank p b t' hm hline hd hb hlead hrest =>
    obtain ⟨t'', -, hrest', hc, -⟩ := leadingBlankLine?_spec hlead
    obtain rfl : t' = t'' := List.append_cancel_left (hrest.symm.trans hrest')
    obtain rfl := Option.some.inj hq
    exact h p hline (by rw [hc]; exact hcloses)
  | indent p w hline hd he =>
    have := (h p hline (by rw [← contentOf_contentOf]; exact hcloses)).2
    simp [he] at this
  | mismatch | content => simp at hq

/-- No block is open where a line that closes all blocks has been started. -/
lemma ClosesAll.stack_eq_empty (h : s.ClosesAll) (hg : s.Sane) (hstart : s.lineStart = true)
    {mode : Mode} (hm : mode.isIndentSensitive = true)
    (hk : (s.ahead mode).token.kind = .eof ∨ (s.ahead mode).token.kind = .bodyEnd ∨
      (s.ahead mode).token.kind = .titleKw) : s.stack = .empty := by
  have hset := settle_of_sensitive s hm
  have hstart' : (s.settle mode).lineStart = true := by simp [hset, hstart]
  obtain ⟨p, hp⟩ : ∃ p, (s.settle mode).line = some p := by
    rw [hset, hstart]
    cases hline : s.line <;> simp
  have hplan := h.settle mode p hp
  have ht := hg.takes mode
  rw [← settle_stack s mode]
  generalize s.ahead mode = l, s.after mode = u at ht hk
  cases ht with
  | dedent | blank | indent => simp [Token.ofParts] at hk
  | mismatch p _ hline hd he hl => simp [hl, Token.ofParts] at hk
  | content _ hidle hblank hl =>
    subst hl
    rw [content_token, Token.ofParts, body_of_lineStart _ _ hstart'] at hk
    have hzero := (hplan (closesBlocks_of_kind hm hk)).1
    rw [(hidle p hp).1] at hzero
    exact congrArg IndentStack.mk (List.length_eq_zero_iff.1 hzero.symm)

/-! ### The end of a text, and a title -/

/-- One scanner stands behind the last line of its text, and the other in front of the title that
follows there. -/
structure Ending (t : Text) (b b' : Nat) (s s' : Scanner) : Prop where
  alike : Alike [] t b b' s s'
  lineStart : s.lineStart = true
  exhausted : contentOf s.rest = []
  terminated : Text.isTerminated s.rest = true
  closesAll : s.ClosesAll

namespace Ending

variable {t : Text} {b b' : Nat}

lemma rest_eq (h : Ending t b b' s s') : s'.rest = s.rest ++ t := by
  obtain ⟨x, h1, h2⟩ := h.alike.rest
  rw [h1, h2, List.append_nil]

lemma contentOf_eq (h : Ending t b b' s s') (ht : Text.isTitled t = true) :
    contentOf s'.rest = Text.dropBlanks t := by
  rw [h.rest_eq, contentOf_append h.terminated h.exhausted (Text.head?_of_isTitled ht),
    Text.contentOf_of_isTitled ht]

lemma settle (h : Ending t b b' s s') (ht : Text.isTitled t = true) (mode : Mode) :
    Ending t b b' (s.settle mode) (s'.settle mode) := by
  have hclosesAll := h.closesAll.settle mode
  cases hm : mode.isIndentSensitive
  · rwa [settle_of_insensitive s hm, settle_of_insensitive s' hm]
  · have hstart' : s'.lineStart = true := h.alike.lineStart.symm.trans h.lineStart
    have hplan : (planLine s.config s.stack s.offset s.rest).Alike b b'
        (planLine s'.config s'.stack s'.offset s'.rest) := by
      obtain ⟨n, h1, h2⟩ := h.alike.offset
      rw [h.rest_eq, ← h.alike.config, ← h.alike.stack, h1, h2]
      exact planLine_append _ _ h.terminated h.exhausted ht _ _ _
    obtain ⟨h1, h2, h3, h4, h5, h6⟩ := h.alike
    rw [settle_of_sensitive s hm] at hclosesAll ⊢
    rw [settle_of_sensitive s' hm, h.lineStart, hstart']
    refine ⟨⟨h1, h2, h3, h4, ?_, ?_⟩, ?_, h.exhausted, h.terminated, ?_⟩
    · simp
    · generalize s.line = p, s'.line = p' at h6
      cases h6 with
      | some hp => exact .some hp
      | none => exact .some hplan
    · simp
    · rwa [h.lineStart] at hclosesAll

/-- Behind the last line nothing can stand next but what closes the open blocks, and where they are
closed the one text is over and the title of the other one stands next. -/
lemma ahead_cases (h : Ending t b b' s s') (ht : Text.isTitled t = true) (hs : s.Good)
    (hs' : s'.Good) {mode : Mode} (hm : mode.isIndentSensitive = true) :
    ((s.ahead mode).Same (s'.ahead mode) ∧
      ((s.ahead mode).token.kind = .dedent ∨ (s.ahead mode).token.kind = .blankLine) ∧
      Ending t b b' (s.after mode) (s'.after mode)) ∨
    ((s.ahead mode).token.kind = .eof ∧ (s'.ahead mode).token.kind = .titleKw) := by
  have hset := h.settle ht mode
  have hsane := hs.settle mode
  have htakes := hs.takes mode
  have hentry : ∀ p, (s.settle mode).line = some p → p.entry = .level := fun p hp =>
    (hset.closesAll p hp (by rw [hset.exhausted]; rfl)).2
  have hcases : ((s.ahead mode).Same (s'.ahead mode) ∧
      ((s.ahead mode).token.kind = .dedent ∨ (s.ahead mode).token.kind = .blankLine)) ∨
      ((s.ahead mode).token.kind = .eof ∧ (s'.ahead mode).token.kind = .titleKw) := by
    have ht' := hs'.takes mode
    have hstart' := hset.alike.lineStart.symm.trans hset.lineStart
    have halike := hset.alike
    have hrest := hset.rest_eq
    generalize s.ahead mode = l, s.after mode = u at htakes
    generalize s'.ahead mode = l', s'.after mode = u' at ht'
    cases htakes with
    | dedent p hline hd =>
      obtain ⟨p', hline', hp⟩ := halike.line_of_some hline
      obtain ⟨rfl, -⟩ := ht'.unique (.dedent p' hline' (hp.dedents ▸ hd))
      exact .inl ⟨⟨rfl, rfl, rfl, rfl⟩, .inl rfl⟩
    | blank p w r hm hline hd hb hlead =>
      obtain ⟨p', hline', hp⟩ := halike.line_of_some hline
      obtain ⟨n, h1, h2⟩ := halike.offset
      have hb' := hp.blankAt?_eq_some (h1 ▸ hb)
      rw [← leadingBlankLine?_append hset.terminated hset.exhausted ht, ← hrest] at hlead
      obtain ⟨r', -, hrest', -, -⟩ := leadingBlankLine?_spec hlead
      obtain ⟨rfl, -⟩ := ht'.unique
        (.blank p' w r' hm hline' (hp.dedents ▸ hd) (h2 ▸ hb') hlead hrest')
      exact .inl ⟨⟨rfl, rfl, rfl, rfl⟩, .inr rfl⟩
    | indent p w hline _ he => simp [hentry p hline] at he
    | mismatch p _ hline _ he => simp [hentry p hline] at he
    | content _ hidle hb hl =>
      -- the blocks are closed
      obtain ⟨_, htext⟩ := halike.takes_content hidle hb
      obtain ⟨rfl, -⟩ := ht'.unique htext
      right
      rw [hl, content_token, content_token, body_of_lineStart _ _ hset.lineStart,
        body_of_lineStart _ _ hstart', hset.exhausted, hset.contentOf_eq ht]
      refine ⟨by rw [Lexeme.next_nil]; rfl, ?_⟩
      rw [Lexeme.next_of_isTitled ht (.inl hm)]
      rfl
  refine hcases.imp_left fun ⟨hsame, hkind⟩ => ⟨hsame, hkind, ?_⟩
  obtain ⟨h1, h2⟩ := htakes.of_structural hsane
    (by rcases hkind with h | h <;> rw [h] <;> rfl)
  exact ⟨.after_of_ahead_same hset.alike hs hs' hsame (by simp), h1,
    h2.trans hset.exhausted, Text.isTerminated_suffix ⟨_, htakes.rest_eq.symm⟩ hset.terminated,
    htakes.closesAll hset.closesAll⟩

end Ending

end Scanner

/-! ### A title behind skipped lines -/

/-- A token with more trivia in front of it. -/
def Token.preceded (trivia : List Trivia) (t : Token) : Token :=
  { t with
    leading := Trivia.sizes trivia ++ t.leading
    fullText := Trivia.concat trivia ++ t.fullText }

lemma Token.preceded_ofParts (trivia leading : List Trivia) (kind : Kind) (own : Text)
    (trailing : List Trivia) : (ofParts leading kind own trailing).preceded trivia =
      ofParts (trivia ++ leading) kind own trailing := by
  simp [Token.preceded, Token.ofParts, Trivia.sizes, List.append_assoc]

namespace Scanner

/-- Two scanners in front of the same title, the second one with some skipped lines before it. -/
structure Skipping (w : Text) (s s' : Scanner) : Prop where
  config : s.config = s'.config
  stack : s.stack = s'.stack
  rest : s'.rest = w ++ s.rest
  exhausted : contentOf w = []
  terminated : Text.isTerminated w = true
  titled : Text.isTitled s.rest = true
  lineStart : s.lineStart = true
  lineStart' : s'.lineStart = true
  planDone : s.PlanDone
  planDone' : s'.PlanDone

namespace Skipping

variable {w : Text} {s s' : Scanner} (h : Skipping w s s')
include h

lemma body :
    s.body .header = Text.dropBlanks s.rest ∧ s'.body .header = Text.dropBlanks s.rest := by
  rw [body_of_lineStart s _ h.lineStart, body_of_lineStart s' _ h.lineStart', h.rest,
    contentOf_append h.terminated h.exhausted (Text.head?_of_isTitled h.titled),
    Text.contentOf_of_isTitled h.titled]
  exact ⟨rfl, rfl⟩

lemma ahead_eq : ∃ own trailing,
    s.ahead .header =
      ⟨(Token.ofParts (lineTrivia s.rest) .titleKw own trailing).placed s.offset, .header, none,
        .content⟩ ∧
    s'.ahead .header =
      ⟨(Token.ofParts (lineTrivia w ++ lineTrivia s.rest) .titleKw own trailing).placed s'.offset,
        .header, none, .content⟩ := by
  have hnext := Lexeme.next_of_isTitled h.titled (.inr rfl)
  have hcontent : ∀ u : Scanner, u.lineStart = true → u.body .header = Text.dropBlanks s.rest →
      u.content .header = ⟨(Token.ofParts (lineTrivia u.rest) .titleKw
        ((Text.dropBlanks s.rest).take (Lexeme.spelled .titleKw).length)
        (trailing .header .titleKw
          ((Text.dropBlanks s.rest).drop (Lexeme.spelled .titleKw).length))).placed u.offset,
        .header, none, .content⟩ := by
    intro u hstart hbody
    have hleading : u.leading .header = lineTrivia u.rest := by simp [leading, hstart]
    rw [content_eq_body, hbody, hnext, hleading]
    rfl
  have h1 := h.planDone.ahead_header.trans (hcontent s h.lineStart h.body.1)
  have h2 := h.planDone'.ahead_header.trans (hcontent s' h.lineStart' h.body.2)
  rw [h.rest, lineTrivia_append h.terminated h.exhausted (Text.head?_of_isTitled h.titled)] at h2
  exact ⟨_, _, h1, h2⟩

lemma kind : (s.ahead .header).token.kind = .titleKw := by
  obtain ⟨own, trailing, h1, -⟩ := h.ahead_eq
  rw [h1]
  rfl

/-- The skipped lines become trivia of the title. -/
lemma token : (s'.ahead .header).token = (s.ahead .header).token.preceded (lineTrivia w) := by
  obtain ⟨own, trailing, h1, h2⟩ := h.ahead_eq
  rw [h1, h2, Token.token_placed, Token.token_placed, Token.preceded_ofParts]

lemma concat_skipped : Trivia.concat (lineTrivia w) = w := by
  have := concat_lineTrivia w
  rwa [h.exhausted, List.append_nil] at this

/-- The title stands at the same place of the text behind the skipped lines. -/
lemma range : ∃ r : Range,
    (s.ahead .header).token.range s.offset = ⟨s.offset + r.start, s.offset + r.stop⟩ ∧
    (s'.ahead .header).token.range s'.offset =
      ⟨s'.offset + Text.size w + r.start, s'.offset + Text.size w + r.stop⟩ := by
  obtain ⟨own, trailing, h1, h2⟩ := h.ahead_eq
  refine ⟨(s.ahead .header).token.range 0, ?_, ?_⟩
  · rw [h1, Token.token_placed, Token.range_ofParts, Token.range_ofParts]
    simp [Range.ofSize, Nat.add_assoc]
  · rw [h1, h2, Token.token_placed, Token.token_placed, Token.range_ofParts, Token.range_ofParts,
      Trivia.concat_append, Text.size_append, h.concat_skipped]
    simp [Range.ofSize, Nat.add_assoc]

/-- Behind the title nothing is left of what stood before it. -/
lemma after :
    Alike [] [] s.offset (s'.offset + Text.size w) (s.after .header) (s'.after .header) := by
  have htoken := h.token
  rw [h.planDone.ahead_header, h.planDone'.ahead_header] at htoken
  have hsize : (s'.content .header).token.size =
      Text.size w + (s.content .header).token.size := by
    rw [htoken, Token.size, Token.size, Token.preceded, Text.size_append, h.concat_skipped]
  have hkind : (s'.content .header).token.kind = (s.content .header).token.kind := by
    rw [htoken]
    rfl
  rw [Scanner.after, Scanner.after, h.planDone.ahead_header, h.planDone'.ahead_header,
    settle_of_insensitive s rfl, settle_of_insensitive s' rfl, take_next, take_next,
      h.body.1, h.body.2]
  refine ⟨h.config, ⟨behind .header (Text.dropBlanks s.rest), by simp, by simp⟩,
    ⟨(s.content .header).token.size, rfl, ?_⟩, h.stack, ?_, .none⟩
  · simp only [hsize, Nat.add_assoc]
  · simp only [hkind]

end Skipping

end Scanner

end DialogueScript
