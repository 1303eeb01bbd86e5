import DialogueScript.Proofs.Scanner.LineStart
import DialogueScript.Proofs.Scanner.Spelling
import Mathlib.Data.List.DropRight

/-!
Where the keywords of commands are read: right behind a `<<`, and in no mode but the one for that
place.
-/

namespace DialogueScript

namespace Lexeme

/-! ### Tokens outside expressions -/

/-- The kinds of tokens that headers, dialogue and the text of commands are made of. -/
def proseKinds : List Kind :=
  headerKeywords ++ [.bodyStart, .bodyEnd, .ident, .hash, .colon, .restOfLine, .shortcutArrow,
    .lineGroupArrow, .text, .textEscape, .hashtagText, .commandStart, .commandEnd, .commandText,
    .leftBrace, .errorToken, .newline, .eof]

lemma getD_spelledAt?_mem {t : Text} {l : Lexeme} {ks : List Kind} (hks : ∀ k ∈ ks, k ∈ proseKinds)
    (hl : l.kind ∈ proseKinds) : ((spelledAt? ks t).getD l).kind ∈ proseKinds := by
  rcases hs : spelledAt? ks t with _ | l'
  · exact hl
  · obtain ⟨k, hfind, rfl⟩ := Option.map_eq_some_iff.1 hs
    exact hks k (List.mem_of_find?_eq_some hfind)

lemma header_mem (t : Text) : (header t).kind ∈ proseKinds := by
  refine getD_spelledAt?_mem (by decide) ?_
  rcases hk : headerKeyword? t with _ | k
  · rcases Text.word? t with _ | word
    · exact getD_spelledAt?_mem (by decide) (by simp [failure, proseKinds])
    · simp [proseKinds]
  · exact List.mem_append_left _ (headerKeyword?_spelled hk).1

lemma text_mem (t : Text) : (text t).kind ∈ proseKinds := by
  refine getD_spelledAt?_mem (by decide) ?_
  split
  · simp [failure, proseKinds]
  · unfold textEscape
    split
    · split <;> simp [failure, proseKinds]
    · simp [failure, proseKinds]
  · simp [proseKinds]
  · simp [proseKinds]
  · unfold textRun
    split <;> simp [failure, proseKinds]

lemma statement_mem (t : Text) : (statement t).kind ∈ proseKinds := by
  refine getD_spelledAt?_mem (by decide) ?_
  split
  · simp [spelled, proseKinds, headerKeywords]
  · exact getD_spelledAt?_mem (by decide) (text_mem t)

/-- In every mode stands a token of prose or what an expression makes of the text. -/
lemma next_mem_or_expr (mode : Mode) (t : Text) :
    (next mode t).kind ∈ proseKinds ∨ next mode t = expr mode t := by
  unfold next
  split
  · exact .inl (by simp [proseKinds])
  · split
    · exact .inl (by simp [proseKinds])
    · split
      · exact .inl (header_mem t)
      · unfold headerValue
        dsimp only
        split
        · exact .inl (header_mem t)
        · exact .inl (by simp [proseKinds])
      · exact .inl (statement_mem t)
      · exact .inl (statement_mem t)
      · exact .inl (text_mem t)
      · unfold hashtag
        split
        · exact .inl (text_mem t)
        · exact .inl (by simp [proseKinds])
      · refine .inl (getD_spelledAt?_mem (by decide) ?_)
        dsimp only
        split <;> simp [proseKinds]
      all_goals exact .inr rfl

/-! ### The keyword of an enum -/

/-- What is no symbol and no literal is a word that is a keyword of the mode. -/
lemma word_of_expr {mode : Mode} {t : Text} {k : Kind} (h : (expr mode t).kind = k)
    (hsymbol : k ∉ exprSymbols) (hother : k ∉ [Kind.eof, .string, .number, .ident, .errorToken]) :
    ∃ word, Text.word? t = some word ∧ keywordIn? mode.keywords word = some k := by
  simp only [List.mem_cons, List.not_mem_nil, or_false, not_or] at hother
  obtain ⟨heof, hstring, hnumber, hident, herror⟩ := hother
  unfold expr at h
  rcases hs : spelledAt? exprSymbols t with _ | l <;> rw [hs] at h
  · rw [Option.getD_none] at h
    split at h
    · exact absurd h.symm heof
    · split at h
      · unfold string at h
        split at h
        · exact absurd h.symm hstring
        · exact absurd h.symm herror
      · split at h
        · exact absurd h.symm hnumber
        · split at h
          · next word hword =>
            rcases hk : keywordIn? mode.keywords word with _ | k' <;> rw [hk] at h
            · exact absurd h.symm hident
            · exact ⟨word, hword, by rw [hk]; exact congrArg some h⟩
          · exact absurd h.symm herror
  · exact absurd (h ▸ mem_of_spelledAt? hs) hsymbol

lemma expr_ne {k : Kind} {mode : Mode} (hsymbol : k ∉ exprSymbols) (hkeyword : k ∉ mode.keywords)
    (hother : k ∉ [Kind.eof, .string, .number, .ident, .errorToken]) (t : Text) :
    (expr mode t).kind ≠ k := by
  intro h
  obtain ⟨word, -, hk⟩ := word_of_expr h hsymbol hother
  exact hkeyword (keywordIn?_mem hk)

lemma expr_ne_enum {mode : Mode} (hm : mode ≠ .command) (t : Text) :
    (expr mode t).kind ≠ .enumKw := by
  have hall : ∀ m : Mode, m ≠ .command → .enumKw ∉ m.keywords := by
    intro m
    cases m <;> decide
  exact expr_ne (by decide) (hall mode hm) (by decide) t

/-- Only behind a `<<` does a word start an enum. -/
lemma next_ne_enum {mode : Mode} (hm : mode ≠ .command) (t : Text) :
    (next mode t).kind ≠ .enumKw := by
  rcases next_mem_or_expr mode t with h | h
  · exact fun hk => absurd (hk ▸ h) (by decide)
  · rw [h]
    exact expr_ne_enum hm t

/-- Where an expression, a name or a keyword can stand, `<<` is read as two symbols. -/
lemma next_ne_commandStart {mode : Mode} (hm : mode = .command ∨ mode = .expr ∨ mode = .name)
    (t : Text) :
    (next mode t).kind ≠ .commandStart := by
  unfold next
  split
  · simp
  · split
    · simp
    · rcases hm with rfl | rfl | rfl <;> exact expr_ne (by decide) (by decide) (by decide) t

/-! ### Keywords of commands -/

/-- A word that is a keyword of commands is read as one. -/
lemma next_of_keyword {t : Text} {k : Kind} (h : commandKeywordAt? t = some k) :
    (next .command (Text.dropBlanks t)).kind = k := by
  simp only [commandKeywordAt?, Option.bind_eq_bind, Option.bind_eq_some_iff] at h
  obtain ⟨word, hword, keyword, hkeyword, h⟩ := h
  obtain rfl : keyword = k := by
    split at h
    · simp at h
    · simpa using h
  generalize Text.dropBlanks t = u at hword
  rcases u with _ | ⟨c, cs⟩
  · simp [Text.word?] at hword
  · have hstart : isWordStart c = true := by
      by_contra hc
      simp [Text.word?, hc] at hword
    have hpart := isWordPart_of_isWordStart hstart
    have hquote : c ≠ '"' := by
      rintro rfl
      simp [isWordStart] at hstart
    have hkeywords : keywordIn? (Mode.keywords .command) word = some keyword := hkeyword
    rw [next_expr (.inr (.inr rfl)) (not_isLineBreak_of_isWordPart hpart), expr,
      spelledAt?_exprSymbols_none (.inl hpart)]
    simp [hquote, not_isDigit_of_isWordStart hstart, hword, hkeywords]

/-- What is read as a keyword of commands is found as one, but for those that start no command. -/
lemma commandKeywordAt?_of_next {t : Text} {k : Kind}
    (h : (next .command (Text.dropBlanks t)).kind = k) (hk : k ∈ commandKeywords) (hto : k ≠ .toKw)
    (has : k ≠ .asKw) : commandKeywordAt? t = some k := by
  have hno : ∀ k ∈ commandKeywords, k ≠ .eof ∧ k ≠ .newline ∧ k ∉ exprSymbols ∧
      k ∉ [Kind.eof, .string, .number, .ident, .errorToken] := by decide
  obtain ⟨heof, hnewline, hsymbol, hother⟩ := hno k hk
  unfold next at h
  split at h
  · exact absurd h.symm heof
  · split at h
    · exact absurd h.symm hnewline
    · obtain ⟨word, hword, hkeyword⟩ := word_of_expr h hsymbol hother
      have hfound : commandKeyword? word = some k := hkeyword
      simp [commandKeywordAt?, hword, hfound, hto, has]

end Lexeme

namespace Scanner

variable {s : Scanner} {mode : Mode}

/-- A token of some kind stands next only if the text or the indentation gives one. -/
lemma ahead_ne (h : s.Good) {k : Kind} (hk : k ∉ [Kind.dedent, .blankLine, .indent, .errorToken])
    (hnext : ∀ t, (Lexeme.next mode t).kind ≠ k) : (s.ahead mode).token.kind ≠ k := by
  simp only [List.mem_cons, List.not_mem_nil, or_false, not_or] at hk
  obtain ⟨hdedent, hblankLine, hindent, herror⟩ := hk
  have ht := h.takes mode
  generalize s.settle mode = c, s.ahead mode = l, s.after mode = s' at ht
  cases ht with
  | dedent => exact Ne.symm hdedent
  | blank => exact Ne.symm hblankLine
  | indent => exact Ne.symm hindent
  | mismatch p _ hline hd he hl =>
    rw [hl]
    exact Ne.symm herror
  | content _ hidle hblank hl =>
    rw [hl]
    exact hnext _

lemma ahead_ne_enum (h : s.Good) (hm : mode ≠ .command) : (s.ahead mode).token.kind ≠ .enumKw :=
  ahead_ne h (by decide) (Lexeme.next_ne_enum hm)

/-- Where an expression, a name or a keyword can stand, `<<` is no token. -/
lemma ahead_ne_commandStart (h : s.Good) (hm : mode = .command ∨ mode = .expr ∨ mode = .name) :
    (s.ahead mode).token.kind ≠ .commandStart :=
  ahead_ne h (by decide) (Lexeme.next_ne_commandStart hm)

/-! ### Behind `<<` -/

lemma drop_blanks (t : Text) : t.drop (gapLength true false t) = Text.dropBlanks t := by
  have hlen : gapLength true false t = (t.takeWhile isBlank).length := by
    simp [gapLength, gap, concat_blankTrivia]
  have hdrop := List.prefix_iff_eq_append.1 (List.takeWhile_prefix (l := t) isBlank)
  rw [hlen, Text.dropBlanks]
  exact List.append_cancel_left (hdrop.trans List.takeWhile_append_dropWhile.symm)

/-- What is read behind a `<<` is the text that its keyword is looked for in. -/
lemma Good.ahead_command (h : s.Good) (hk : (s.ahead mode).token.kind = .commandStart) :
    ((s.after mode).settle .command).lineStart = false ∧
      ((s.after mode).settle .command).body .command = Text.dropBlanks
        (((s.settle mode).body mode).drop
          (Lexeme.next mode ((s.settle mode).body mode)).length) := by
  have ht := h.takes mode
  generalize s.settle mode = c, s.ahead mode = l, s.after mode = s' at ht hk
  cases ht with
  | dedent | blank | indent => simp [Token.ofParts] at hk
  | mismatch p _ hline hd he hl => simp [hl, Token.ofParts] at hk
  | content _ hidle hblank hl =>
    subst hl
    have hlexeme : (Lexeme.next mode (c.body mode)).kind = .commandStart := hk
    have hbehind : behind mode (c.body mode) = Text.dropBlanks
        ((c.body mode).drop (Lexeme.next mode (c.body mode)).length) := by
      rw [behind, hlexeme, ← drop_blanks]
      simp [trailing, keepsBlanks, Kind.isStructural, gapLength]
    rw [settle_of_insensitive _ rfl]
    refine ⟨by simp [hk], ?_⟩
    rw [body_of_midLine]
    · change (behind _ _).drop (gapLength true false _) = _
      rw [drop_blanks, hbehind, Text.dropBlanks, Text.dropBlanks, List.dropWhile_idempotent]
    · simp [hk]

/-- Behind a `<<` a token is read from the text in which the keyword is looked for. -/
lemma Good.kind_behind (h : s.Good) (hk : (s.ahead mode).token.kind = .commandStart) :
    ∃ t, s.commandAhead mode = commandKeywordAt? t ∧
      ((s.after mode).ahead .command).token.kind =
        (Lexeme.next .command (Text.dropBlanks t)).kind := by
  obtain ⟨hstart, hbody⟩ := h.ahead_command hk
  refine ⟨_, (h.commandAhead_eq hk).2, ?_⟩
  rw [ahead, scan, hstart, if_neg (by simp), Option.getD_none, content_token, hbody, Token.ofParts]

/-- The keyword of a command is the token behind its `<<`. -/
lemma Good.keyword_ahead (h : s.Good) {k : Kind} (hk : s.commandAhead mode = some k) :
    ((s.after mode).ahead .command).token.kind = k := by
  obtain ⟨t, hahead, hbehind⟩ := h.kind_behind (kind_of_commandAhead hk)
  rw [hbehind]
  exact Lexeme.next_of_keyword (hahead.symm.trans hk)

/-- A token behind a `<<` that is the keyword of a command is found as one. -/
lemma Good.commandAhead_of_keyword (h : s.Good) (hk : (s.ahead mode).token.kind = .commandStart)
    {k : Kind} (hbehind : ((s.after mode).ahead .command).token.kind = k)
    (hmem : k ∈ commandKeywords) (hto : k ≠ .toKw) (has : k ≠ .asKw) :
    s.commandAhead mode = some k := by
  obtain ⟨t, hahead, hkind⟩ := h.kind_behind hk
  rw [hahead]
  exact Lexeme.commandKeywordAt?_of_next (hkind.symm.trans hbehind) hmem hto has

end Scanner

end DialogueScript
