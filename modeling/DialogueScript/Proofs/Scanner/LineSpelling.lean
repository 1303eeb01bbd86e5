import DialogueScript.Proofs.Scanner.Indent

/-!
The tokens of lines, where they stand the way they are written: text, titles, markers and commands,
up to the line break.
-/

namespace DialogueScript

open Text

/-! ### Text without comments -/

namespace Text

/-- Nowhere in a text does a comment start. -/
def Commentless (t : Text) : Prop := ¬ ['/', '/'] <:+: t

instance : DecidablePred Commentless := fun t => inferInstanceAs (Decidable (¬ ['/', '/'] <:+: t))

/-- Something to show: no blank on either side. -/
def Trimmed (t : Text) : Prop :=
  t ≠ [] ∧ t.head?.all (!isBlank ·) = true ∧ t.getLast?.all (!isBlank ·) = true

instance : DecidablePred Trimmed := fun _ => inferInstanceAs (Decidable (_ ∧ _ ∧ _))

lemma Commentless.tail {c : Char} {t : Text} (h : Commentless (c :: t)) : Commentless t :=
  fun hi => h (hi.trans (List.suffix_cons c t).isInfix)

lemma Commentless.startsComment {t : Text} (h : Commentless t) : Text.startsComment t = false := by
  by_contra hc
  exact h (startsComment_iff.1 (by simpa using hc)).isInfix

/-- A line break does not make a comment of the text before it. -/
lemma Commentless.startsComment_append {t : Text} (h : Commentless t) (r : Text) :
    Text.startsComment (t ++ '\n' :: r) = false := by
  by_contra hc
  have hprefix := startsComment_iff.1 (by simpa using hc)
  rcases t with _ | ⟨c, _ | ⟨d, t⟩⟩
  · simp at hprefix
  · simp at hprefix
  · simp only [List.cons_append, List.cons_prefix_cons] at hprefix
    obtain ⟨rfl, rfl, -⟩ := hprefix
    exact h ⟨[], t, rfl⟩

lemma trimEnd_eq {t : Text} (h : t.getLast?.all (!isBlank ·) = true) : trimEnd t = t := by
  rw [trimEnd]
  rcases List.eq_nil_or_concat t with rfl | ⟨u, c, rfl⟩
  · rfl
  · have hc : isBlank c = false := by simpa using h
    simp [hc]

lemma Trimmed.unspaced {t : Text} (h : Trimmed t) (r : Text) : Unspaced (t ++ r) := by
  obtain ⟨hne, hhead, -⟩ := h
  rcases t with _ | ⟨c, t⟩
  · exact absurd rfl hne
  · rintro _ ⟨⟩
    simpa using hhead

end Text

namespace Lexeme

lemma runLength_append {stop : Char → Bool} {t : Text} (h : Commentless t)
    (ht : t.all (!stop ·) = true) (hstop : stop '\n' = true) (r : Text) :
    runLength stop (t ++ '\n' :: r) = t.length := by
  induction t with
  | nil => simp [runLength, hstop]
  | cons c t ih =>
    simp only [List.all_cons, Bool.and_eq_true, Bool.not_eq_true'] at ht
    have hcomment := h.startsComment_append r
    rw [List.cons_append] at hcomment
    rw [List.cons_append, runLength, hcomment, ht.1, ih h.tail ht.2]
    simp

lemma runLength_self {t : Text} (h : Commentless t) : runLength (fun _ => false) t = t.length := by
  induction t with
  | nil => rfl
  | cons c t ih =>
    rw [runLength, h.startsComment, ih h.tail]
    simp

/-! ### Dialogue -/

/-- Text that stands for itself in a line of dialogue. -/
structure PlainText (t : Text) : Prop where
  trimmed : t.Trimmed
  commentless : t.Commentless
  chars : t.all (!isTextStop ·) = true

/-- Blanks at the start of such a text belong to it, those at its end do not. -/
lemma textRun_append {t : Text} (hne : t ≠ []) (hcomment : t.Commentless)
    (hchars : t.all (!isTextStop ·) = true) (hlast : t.getLast?.all (!isBlank ·) = true)
    (r : Text) :
    textRun (t ++ '\n' :: r) = ⟨.text, t.length, none⟩ := by
  have hlen : t.length ≠ 0 := by simpa using hne
  have hrun := runLength_append hcomment hchars (show isTextStop '\n' = true by decide) r
  have hvisible : visibleRunLength isTextStop ["//", "#", "<<"] (t ++ '\n' :: r) = t.length := by
    simp only [visibleRunLength, hrun, List.drop_left, List.take_left]
    simp [Text.atLineEnd, Text.lineBreak?, trimmedLength, Text.trimEnd_eq hlast]
  rw [textRun, hvisible]
  rcases hn : t.length with _ | n
  · exact absurd hn hlen
  · rfl

lemma textRun_plain {t : Text} (h : PlainText t) (r : Text) :
    textRun (t ++ '\n' :: r) = ⟨.text, t.length, none⟩ :=
  textRun_append h.trimmed.1 h.commentless h.chars h.trimmed.2.2 r

lemma text_plain {t : Text} (h : PlainText t) (r : Text) :
    text (t ++ '\n' :: r) = ⟨.text, t.length, none⟩ := by
  have hrun := textRun_plain h r
  rcases t with _ | ⟨c, t⟩
  · exact absurd rfl h.trimmed.1
  · have hc := h.chars
    simp only [List.all_cons, Bool.and_eq_true, Bool.not_eq_true', isTextStop, Bool.or_eq_false_iff,
      decide_eq_false_iff_not] at hc
    obtain ⟨⟨⟨⟨⟨⟨⟨h1, h2⟩, h3⟩, h4⟩, h5⟩, h6⟩, -⟩, -⟩ := hc
    have hspell : spelledAt? [.commandStart, .leftBrace, .hash] (c :: t ++ '\n' :: r) = none := by
      have e1 : ¬ '<' = c := fun h => h2 h.symm
      have e2 : ¬ '\x7b' = c := fun h => h4 h.symm
      have e3 : ¬ '#' = c := fun h => h1 h.symm
      have hcommand : Kind.commandStart.chars = ['<', '<'] := rfl
      have hbrace : Kind.leftBrace.chars = ['\x7b'] := rfl
      have hhash : Kind.hash.chars = ['#'] := rfl
      simp [spelledAt?, hcommand, hbrace, hhash, e1, e2, e3]
    rw [text, hspell, hrun]
    simp [h2, h3, h5, h6]

/-! ### Lines -/

/-- A marker that stands at the start of a line stands in the line. -/
lemma prefix_line {m t r : Text} (hm : '\n' ∉ m) (h : m <+: t ++ '\n' :: r) : m <+: t := by
  induction m generalizing t with
  | nil => exact List.nil_prefix
  | cons c m ih =>
    simp only [List.mem_cons, not_or] at hm
    rcases t with _ | ⟨d, t⟩
    · simp only [List.nil_append, List.cons_prefix_cons] at h
      exact absurd h.1.symm hm.1
    · simp only [List.cons_append, List.cons_prefix_cons] at h ⊢
      exact ⟨h.1, ih hm.2 h.2⟩

lemma isPrefixOf_line {m t : Text} (hm : '\n' ∉ m) (h : m.isPrefixOf t = false) (r : Text) :
    m.isPrefixOf (t ++ '\n' :: r) = false := by
  by_contra hp
  have := prefix_line hm (List.isPrefixOf_iff_prefix.1 (by simpa using hp))
  simp [List.isPrefixOf_iff_prefix.2 this] at h

/-- A line that starts with `title`, blanks and a colon. -/
def startsTitle (t : Text) : Bool :=
  Text.startsWith t "title" && (Text.dropBlanks (t.drop 5)).head? = some ':'

/-- Text of a line that is not taken for the start of anything else. -/
structure PlainLine (t : Text) : Prop extends PlainText t where
  option : Text.startsWith t "->" = false
  item : Text.startsWith t "=>" = false
  bodyEnd : Text.startsWith t "===" = false
  title : startsTitle t = false

lemma word?_prefix {t w : Text} (h : Text.word? t = some w) : w <+: t := by
  rcases t with _ | ⟨c, cs⟩
  · simp [Text.word?] at h
  · simp only [Text.word?, Option.ite_none_right_eq_some, Option.some.injEq] at h
    rw [← h.2]
    exact List.cons_prefix_cons.2 ⟨rfl, List.takeWhile_prefix _⟩

lemma startsTitle_of_headerKeyword? {t r : Text}
    (h : headerKeyword? (t ++ '\n' :: r) = some .titleKw) :
    startsTitle t = true := by
  simp only [headerKeyword?, bind, Option.bind_eq_some_iff] at h
  obtain ⟨word, hword, keyword, hkey, hcolon⟩ := h
  split at hcolon
  · next hhead =>
    obtain rfl : keyword = .titleKw := by simpa using hcolon
    obtain rfl : "title".toList = word := by
      have := List.find?_some hkey
      rw [decide_eq_true_eq] at this
      exact this
    have hprefix : "title".toList <+: t ++ '\n' :: r := by
      exact word?_prefix hword
    obtain ⟨u, rfl⟩ := prefix_line (by decide) hprefix
    have hlen : "title".toList.length = 5 := by decide
    rw [List.append_assoc, List.drop_left] at hhead
    have hu : (Text.dropBlanks u).head? = some ':' := by
      rw [Text.dropBlanks, List.dropWhile_append] at hhead
      rw [Text.dropBlanks]
      rcases hd : u.dropWhile isBlank with _ | ⟨c, cs⟩
      · simp [hd, isBlank] at hhead
      · simpa [hd] using hhead
    have hdrop : ("title".toList ++ u).drop 5 = u := by
      rw [← hlen, List.drop_left]
    rw [startsTitle, hdrop, hu, Text.startsWith,
      List.isPrefixOf_iff_prefix.2 (List.prefix_append _ _)]
    rfl
  · simp at hcolon

lemma statement_plain {t : Text} (h : PlainLine t) (r : Text) :
    statement (t ++ '\n' :: r) = ⟨.text, t.length, none⟩ := by
  have h1 : spelledAt? [.bodyEnd] (t ++ '\n' :: r) = none := by
    simp [spelledAt?, isPrefixOf_line (m := Kind.bodyEnd.chars) (by decide) h.bodyEnd]
  have h2 : headerKeyword? (t ++ '\n' :: r) ≠ some .titleKw := by
    intro hk
    have := startsTitle_of_headerKeyword? hk
    simp [h.title] at this
  have h3 : spelledAt? [.shortcutArrow, .lineGroupArrow] (t ++ '\n' :: r) = none := by
    simp [spelledAt?, isPrefixOf_line (m := Kind.shortcutArrow.chars) (by decide) h.option,
      isPrefixOf_line (m := Kind.lineGroupArrow.chars) (by decide) h.item]
  rw [statement, h1, h3, if_neg h2, ← text_plain h.toPlainText r]
  rfl

/-- A title, up to the line break. -/
lemma headerValue_title {t : Text} (h : t.Trimmed) (hc : t.Commentless) (hl : t.OneLine)
    (r : Text) :
    headerValue (t ++ '\n' :: r) = ⟨.restOfLine, t.length, none⟩ := by
  have hfirst : Text.firstLine (t ++ '\n' :: r) = t := by
    refine Text.takeWhile_append hl ?_
    rintro _ ⟨⟩
    decide
  have hne : t.isEmpty = false := by simpa using h.1
  rw [headerValue]
  simp only [hfirst, runLength_self hc, List.take_length, Text.trimEnd_eq h.2.2, hne]
  rfl

end Lexeme

namespace Scanner

variable {mode : Mode} {k : Kind} {w b r : Text}

lemma gap_newline (blanks comments : Bool) : gap blanks comments ('\n' :: r) = [] := by
  cases blanks <;> cases comments <;> rfl

/-- Nothing stands between a token and the line break behind it. -/
lemma trailing_line (mode : Mode) (k : Kind) : trailing mode k ('\n' :: r) = [] := by
  rw [trailing]
  split
  · rfl
  · exact gap_newline ..

lemma tokenAt_line (hnext : Lexeme.next mode (w ++ '\n' :: r) = ⟨k, w.length, none⟩) :
    TokenAt mode k w [] ('\n' :: r) :=
  ⟨by simpa using hnext, by rw [List.nil_append, trailing_line]; rfl⟩

lemma facing_newline (hm : mode.isIndentSensitive = false) :
    Facing mode .newline ['\n'] [] r where
  next := rfl
  trail := by rw [trailing_newline]; rfl
  gap := gap_newline ..
  insensitive := hm

lemma next_statement (hm : mode.isIndentSensitive = true) {c : Char} {cs : Text}
    (hc : isLineBreak c = false) : Lexeme.next mode (c :: cs) = Lexeme.statement (c :: cs) := by
  unfold Lexeme.next
  rw [if_neg (by simp), Text.lineBreak?_cons _ hc]
  cases mode <;> simp [Mode.isIndentSensitive] at hm <;> rfl

/-! ### Dialogue -/

lemma head_plain {t : Text} (h : Lexeme.PlainText t) : ∃ c cs, t = c :: cs ∧ isBlank c = false ∧
    isLineBreak c = false := by
  obtain ⟨⟨hne, hblank, -⟩, -, hchars⟩ := h
  rcases t with _ | ⟨c, cs⟩
  · exact absurd rfl hne
  · simp only [List.all_cons, Bool.and_eq_true, Bool.not_eq_true', Lexeme.isTextStop,
      Bool.or_eq_false_iff] at hchars
    exact ⟨c, cs, rfl, by simpa using hblank, hchars.1.2⟩

lemma content_plain {t : Text} (h : Lexeme.PlainText t) (r : Text) :
    Text.Content (t ++ '\n' :: r) := by
  obtain ⟨c, cs, rfl, h1, h2⟩ := head_plain h
  exact ⟨by simp, h.trimmed.unspaced _, Text.lineBreak?_cons _ h2,
    h.commentless.startsComment_append r⟩

lemma closesBlocks_plain {t : Text} (h : Lexeme.PlainLine t) (r : Text) :
    closesBlocks (t ++ '\n' :: r) = false := by
  have hend : Text.startsWith (t ++ '\n' :: r) "===" = false :=
    Lexeme.isPrefixOf_line (by decide) h.bodyEnd r
  have htitle : headerKeyword? (t ++ '\n' :: r) ≠ some .titleKw := by
    intro hk
    have := Lexeme.startsTitle_of_headerKeyword? hk
    simp [h.title] at this
  rw [closesBlocks, hend, decide_eq_false htitle]
  simp

lemma tokenAt_plain {t : Text} (h : Lexeme.PlainLine t) (hm : mode.isIndentSensitive = true) :
    TokenAt mode .text t [] ('\n' :: r) := by
  refine tokenAt_line ?_
  rw [← Lexeme.statement_plain h r]
  obtain ⟨c, cs, rfl, -, h2⟩ := head_plain h.toPlainText
  exact next_statement hm h2

/-- Text in the middle of a line. -/
lemma facing_plain {t : Text} (h : Lexeme.PlainText t) : Facing .text .text t [] ('\n' :: r) where
  toTokenAt := by
    refine tokenAt_line ?_
    rw [← Lexeme.text_plain h r]
    obtain ⟨c, cs, rfl, -, h2⟩ := head_plain h
    unfold Lexeme.next
    rw [List.cons_append, if_neg (by simp), Text.lineBreak?_cons _ h2]
  gap := by
    simp only [DialogueScript.gap, Mode.skipsBlanks, Mode.allowsComments, List.append_nil]
    simp [commentTrivia, h.commentless.startsComment_append r]
  insensitive := rfl

/-- Blanks in front of something that is no comment. -/
lemma concat_gap_blanks {comments : Bool} (hb : b.all isBlank = true) (hr : Text.Unspaced r)
    (hc : comments = true → Text.startsComment r = false) :
    Trivia.concat (gap true comments (b ++ r)) = b := by
  have hblank := blankTrivia_append hb hr
  simp only [gap, if_true, Trivia.concat_append, hblank, List.drop_left]
  cases comments
  · simp
  · simp [commentTrivia, hc rfl]

/-- An opening brace takes the blanks behind it. -/
lemma tokenAt_leftBrace (hm : mode.isIndentSensitive = true) (hb : b.all isBlank = true)
    (hr : Text.Unspaced r) : TokenAt mode .leftBrace ['\x7b'] b r where
  next := next_statement hm (by decide)
  trail := by
    rw [trailing, if_neg (by simp [Kind.isStructural])]
    exact concat_gap_blanks hb hr (by simp)

/-! ### Markers of items -/

lemma tokenAt_arrow (hm : mode.isIndentSensitive = true)
    (hk : k = .shortcutArrow ∨ k = .lineGroupArrow) (hr : Text.Unspaced r)
    (hc : Text.startsComment r = false) : TokenAt mode k k.chars [' '] r where
  next := by
    rcases hk with rfl | rfl
    · exact next_statement hm (by decide)
    · exact next_statement hm (by decide)
  trail := by
    have hkinds : keepsBlanks k = false ∧ k.isStructural = false ∧ k ≠ .newline ∧ k ≠ .eof ∧
        k ≠ .hash := by
      rcases hk with rfl | rfl <;> decide
    rw [trailing, if_neg (by simp [hkinds]), hkinds.1]
    exact concat_gap_blanks (by decide) hr fun _ => hc

/-! ### Commands -/

lemma tokenAt_commandStart (hm : mode.isIndentSensitive = true) (hr : Text.Unspaced r) :
    TokenAt mode .commandStart ['<', '<'] [] r where
  next := next_statement hm (by decide)
  trail := by
    rw [trailing, if_neg (by simp [Kind.isStructural])]
    simp [DialogueScript.gap, keepsBlanks, blankTrivia_eq_nil hr, Trivia.concat]

/-- The words of commands are spelled by words, each its own. -/
lemma command_spelling (hk : k ∈ commandKeywords) : isWord k.chars = true ∧
    keywordIn? commandKeywords k.chars = some k ∧ k.isStructural = false ∧ k ≠ .newline ∧ k ≠ .eof ∧
    k ≠ .hash ∧ k ≠ .commandEnd ∧ keepsBlanks k = false := by
  have hall : ∀ k ∈ commandKeywords, isWord k.chars = true ∧
      keywordIn? commandKeywords k.chars = some k ∧ k.isStructural = false ∧ k ≠ .newline ∧
      k ≠ .eof ∧ k ≠ .hash ∧ k ≠ .commandEnd ∧ keepsBlanks k = false := by decide
  exact hall k hk

lemma facing_commandKeyword (hk : k ∈ commandKeywords) (hb : b.all isBlank = true)
    (he : Text.EndsWord (b ++ r)) (hr : Text.Unspaced r) : Facing .command k k.chars b r := by
  obtain ⟨hword, hkey, h1, h2, h3, h4, h5, h6⟩ := command_spelling hk
  have hlex : Lexeme.expr .command (k.chars ++ (b ++ r)) = ⟨k, k.chars.length, none⟩ := by
    rw [Lexeme.expr_word hword he]
    simp [Mode.keywords, hkey]
  obtain ⟨c, cs, hch, hc⟩ := Lexeme.head_word hword
  rw [hch] at hlex ⊢
  exact facing_expr (.inr (.inr rfl)) hc hlex ⟨h1, h2, h3, h4, h5⟩ (.inl h6) hb hr

/-- The keyword that is found behind the `<<`. -/
lemma commandKeywordAt?_append (hk : k ∈ commandKeywords) (hne : k ≠ .toKw ∧ k ≠ .asKw) {t : Text}
    (ht : Text.EndsWord t) : commandKeywordAt? (k.chars ++ t) = some k := by
  obtain ⟨hword, hkey, -⟩ := command_spelling hk
  obtain ⟨c, cs, hch, hc, -⟩ := Lexeme.head_word hword
  have hdrop : Text.dropBlanks (k.chars ++ t) = k.chars ++ t := by
    rw [hch, List.cons_append, Text.dropBlanks, List.dropWhile_cons_of_neg (by simp [hc])]
  rw [commandKeywordAt?, hdrop, Lexeme.word?_append hword ht]
  simp [commandKeyword?, hkey, hne]

lemma facing_commandEnd (hm : mode = .expr ∨ mode = .name ∨ mode = .command) :
    Facing mode .commandEnd ['>', '>'] [] ('\n' :: r) where
  toTokenAt := by
    refine tokenAt_line ?_
    rcases hm with rfl | rfl | rfl <;> rfl
  gap := by rcases hm with rfl | rfl | rfl <;> rfl
  insensitive := by rcases hm with rfl | rfl | rfl <;> rfl

lemma facing_eq (hb : b.all isBlank = true) (hne : b ≠ []) (hr : Text.Unspaced r) :
    Facing .command .eq ['='] b r := by
  refine facing_expr (.inr (.inr rfl)) (by decide) ?_ (by decide) (.inl rfl) hb hr
  rcases b with _ | ⟨c, cs⟩
  · exact absurd rfl hne
  · have hc : isBlank c = true := List.all_eq_true.1 hb c (by simp)
    simp only [isBlank, Bool.or_eq_true, decide_eq_true_eq] at hc
    rcases hc with rfl | rfl <;> rfl

/-! ### Headers and bodies -/

lemma tokenAt_title : TokenAt .header .titleKw "title".toList [] (':' :: r) := ⟨rfl, rfl⟩

lemma facing_colon (hr : Text.Unspaced r) (hc : Text.startsComment r = false) :
    Facing .header .colon [':'] [' '] r where
  next := rfl
  trail := by
    rw [trailing, if_neg (by simp [Kind.isStructural])]
    exact concat_gap_blanks (by decide) hr fun _ => hc
  gap := rfl
  insensitive := rfl

lemma facing_title {t : Text} (h : t.Trimmed) (hc : t.Commentless) (hl : t.OneLine) :
    Facing .headerValue .restOfLine t [] ('\n' :: r) where
  toTokenAt := by
    refine tokenAt_line ?_
    rw [← Lexeme.headerValue_title h hc hl r]
    rcases t with _ | ⟨c, cs⟩
    · exact absurd rfl h.1
    · have hbreak : isLineBreak c = false := hl.not_break c (by simp)
      unfold Lexeme.next
      rw [List.cons_append, if_neg (by simp), Text.lineBreak?_cons _ hbreak]
  gap := by
    have hblank : blankTrivia (t ++ [] ++ '\n' :: r) = [] := by
      rw [List.append_nil]
      exact blankTrivia_eq_nil (h.unspaced _)
    simp only [DialogueScript.gap, Mode.skipsBlanks, Mode.allowsComments, if_true, hblank]
    simp [commentTrivia, Trivia.concat, hc.startsComment_append r]
  insensitive := rfl

lemma tokenAt_bodyStart : TokenAt .header .bodyStart "---".toList [] ('\n' :: r) := ⟨rfl, rfl⟩

lemma tokenAt_bodyEnd (hm : mode.isIndentSensitive = true) :
    TokenAt mode .bodyEnd "===".toList [] ('\n' :: r) :=
  tokenAt_line (next_statement hm (by decide))

end Scanner

end DialogueScript
