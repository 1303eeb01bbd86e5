import DialogueScript.Proofs.Scanner.LineStart

/-!
Which tokens are errors, and in which modes the same place of the text is one.
-/

namespace DialogueScript

namespace Mode

/-- The modes that read the text as expressions do; only their keywords differ. -/
def readsTerms : Mode → Bool
  | .command | .expr | .name => true
  | _ => false

end Mode

namespace Lexeme

/-- No keyword makes an error of a word. -/
lemma expr_error_iff (mode mode' : Mode) (t : Text) :
    (expr mode t).kind = .errorToken ↔ (expr mode' t).kind = .errorToken := by
  have hword : ∀ (m : Mode) (w : Text), ((keywordIn? m.keywords w).getD .ident) ≠ .errorToken := by
    intro m w
    rcases hk : keywordIn? m.keywords w with _ | k
    · simp
    · have hall : ∀ m : Mode, ∀ k ∈ m.keywords, Spellable k := by intro m; cases m <;> decide
      exact (hall m k (keywordIn?_mem hk)).2.2.1
  unfold expr
  rcases spelledAt? exprSymbols t with _ | l
  · simp only [Option.getD_none]
    split
    · rfl
    · split
      · rfl
      · split
        · rfl
        · split
          · simp [hword]
          · rfl
  · rfl

lemma spelledAt?_isSome {ks : List Kind} {k : Kind} {t : Text} (hk : k ∈ ks)
    (h : k.chars.isPrefixOf t = true) : (spelledAt? ks t).isSome = true := by
  rw [spelledAt?, Option.isSome_map, List.find?_isSome]
  exact ⟨k, hk, h⟩

/-- A spelling that is expected is no error. -/
lemma kind_spelledAt?_ne {ks : List Kind} {l : Lexeme} {t : Text} (h : spelledAt? ks t = some l)
    (hks : .errorToken ∉ ks) : l.kind ≠ .errorToken := by
  obtain ⟨k, hk, rfl⟩ := Option.map_eq_some_iff.1 h
  exact fun he => hks (he ▸ List.mem_of_find?_eq_some hk)

lemma next_terms {m : Mode} (hm : m.readsTerms = true) (t : Text) :
    (next m t).kind = .errorToken ↔ (next .expr t).kind = .errorToken := by
  have : m = .command ∨ m = .expr ∨ m = .name := by
    cases m <;> simp [Mode.readsTerms] at hm ⊢
  unfold next
  split
  · simp
  · split
    · simp
    · rcases this with rfl | rfl | rfl <;> exact expr_error_iff _ _ t

/-- What is an error in an expression is no comment elsewhere. -/
lemma not_startsComment_of_expr {t : Text} (h : (next .expr t).kind = .errorToken) :
    Text.startsComment t = false := by
  by_contra hc
  have hslash : Kind.slash.chars.isPrefixOf t = true := by
    rw [Bool.not_eq_false, Text.startsComment_iff] at hc
    rw [List.isPrefixOf_iff_prefix]
    exact List.IsPrefix.trans ⟨['/'], rfl⟩ hc
  have hspelled : (spelledAt? exprSymbols t).isSome = true := spelledAt?_isSome (by decide) hslash
  obtain ⟨l, hl⟩ := Option.isSome_iff_exists.1 hspelled
  have hkind := kind_spelledAt?_ne hl (by decide)
  unfold next at h
  split at h
  · simp at h
  · split at h
    · simp at h
    · refine hkind ?_
      simpa only [expr, hl, Option.getD_some] using h

/-- What is an error behind `#` is one in dialogue. -/
lemma text_of_hashtag {t : Text} (h : (next .hashtag t).kind = .errorToken) :
    (next .text t).kind = .errorToken := by
  unfold next at h ⊢
  split at h
  · simp at h
  · next hne =>
    rw [if_neg hne]
    split at h
    · simp at h
    · simp only [hashtag] at h
      split at h
      · exact h
      · simp at h

/-- What is an error in dialogue is no blank. -/
lemma not_blank_of_text {c : Char} {cs : Text} (h : (next .text (c :: cs)).kind = .errorToken) :
    isBlank c = false := by
  by_contra hc
  rw [Bool.not_eq_false] at hc
  have hcs : c = ' ' ∨ c = '\t' := by simpa [isBlank] using hc
  have hbreak : Text.lineBreak? (c :: cs) = none := by
    rcases hcs with rfl | rfl <;> exact Text.lineBreak?_cons cs rfl
  have hrun : 0 < visibleRunLength isTextStop ["//", "#", "<<"] (c :: cs) := by
    refine visibleRunLength_pos _ ?_
    rcases hcs with rfl | rfl <;>
      simp [runLength, isTextStop, isLineBreak, Text.startsComment, Text.startsWith]
  have htext : (next .text (c :: cs)).kind = .text := by
    have hspelled : spelledAt? [.commandStart, .leftBrace, .hash] (c :: cs) = none := by
      rcases hcs with rfl | rfl <;> rfl
    have hrun' : textRun (c :: cs) =
        ⟨.text, visibleRunLength isTextStop ["//", "#", "<<"] (c :: cs), none⟩ := by
      unfold textRun
      split
      · next h0 => omega
      · rfl
    rw [next, if_neg (by simp), hbreak]
    simp only [text, hspelled, Option.getD_none, List.head?_cons]
    rcases hcs with rfl | rfl <;> simp [hrun']
  simp [htext] at h

/-- The text of a command holds no errors. -/
lemma commandText_ne_error (t : Text) : (next .commandText t).kind ≠ .errorToken := by
  unfold next
  split
  · simp
  · split
    · simp
    · simp only [commandText]
      rcases hs : spelledAt? [.commandEnd, .leftBrace] t with _ | l
      · simp only [Option.getD_none]
        split <;> simp
      · exact kind_spelledAt?_ne hs (by decide)

end Lexeme

namespace Scanner

variable {s s' : Scanner} {mode : Mode} {l : Lexed}

lemma Takes.isToken (h : Takes s mode l s') : l.token.kind.isToken = true := by
  cases h with
  | dedent => exact show Kind.isToken .dedent = true by decide
  | blank => exact show Kind.isToken .blankLine = true by decide
  | indent => exact show Kind.isToken .indent = true by decide
  | mismatch p _ hline hd he hl =>
    rw [hl]
    exact show Kind.isToken .errorToken = true by decide
  | content _ hidle hblank hl =>
    subst hl
    rw [content_token, Token.ofParts]
    have hread := reading_next mode (s.body mode)
    generalize Lexeme.next mode (s.body mode) = x, behind mode (s.body mode) = t' at hread
    cases hread with
    | eof => exact show Kind.isToken .eof = true by decide
    | newline => exact show Kind.isToken .newline = true by decide
    | plain _ _ _ _ hfits => exact hfits.plain.token

/-- Behind a token of a line, but not behind its end, stands the middle of the line. -/
lemma Takes.midLine (h : Takes s mode l s') (hk : l.token.kind.isStructural = false)
    (hn : l.token.kind ≠ .newline) : s'.lineStart = false := by
  cases h with
  | dedent => simp [Kind.isStructural] at hk
  | blank => simp [Kind.isStructural] at hk
  | indent => simp [Token.ofParts, Kind.isStructural] at hk
  | mismatch => rfl
  | content => simp [hn]

/-- Outside options, the tokens that the indentation asks for do not depend on the mode. -/
lemma planned?_token (s : Scanner) {m m' : Mode} (h : m ≠ .afterOption) (h' : m' ≠ .afterOption) :
    (s.planned? m).map (·.token) = (s.planned? m').map (·.token) := by
  rcases hline : s.line with _ | p
  · simp [planned?, hline]
  · by_cases hd : 0 < p.dedents
    · simp [planned?, hline, hd]
    · rcases he : p.entry with _ | w | _ <;> simp [planned?, hline, hd, h, h', he]

/-- Without blanks in front of it, a text has the same gap whether blanks are passed over or not. -/
lemma gapLength_of_no_blanks {t : Text} (h : t.takeWhile isBlank = []) :
    gapLength false true t = gapLength true true t := by
  have : blankTrivia t = [] := by rw [blankTrivia, h]
  simp [gapLength, gap, this]

/-- In every mode, a line ends where its text does. -/
lemma next_lineEnd (mode : Mode) (t : Text) : ((Lexeme.next mode t).kind = .newline ∨
    (Lexeme.next mode t).kind = .eof) ↔ Text.atLineEnd t = true := by
  have hread := reading_next mode t
  generalize Lexeme.next mode t = x, behind mode t = t' at hread
  cases hread with
  | eof hnil => simp [hnil, Text.atLineEnd]
  | newline n hn => simp [Text.atLineEnd, hn]
  | plain _ _ hne hbreak hfits =>
    simp [Text.atLineEnd, hne, hbreak, hfits.plain.newline, hfits.plain.eof]

/-- What is an error in the middle of a header line is no end of a line in dialogue. -/
lemma text_of_header_error (hstart : s.lineStart = false)
    (h : (s.ahead .header).token.kind = .errorToken) :
    (s.ahead .text).token.kind ≠ .newline ∧ (s.ahead .text).token.kind ≠ .eof := by
  have hkind : ∀ mode : Mode, mode.isIndentSensitive = false →
      (s.ahead mode).token.kind = (Lexeme.next mode (s.body mode)).kind := by
    intro mode hm
    rw [ahead, settle_of_insensitive s hm, scan, hstart, if_neg (by simp), Option.getD_none]
    rfl
  have hheader : Text.atLineEnd (s.body .header) = false := by
    rw [Bool.eq_false_iff, ne_eq, ← next_lineEnd .header, ← hkind .header rfl, h]
    simp
  rw [hkind .text rfl, ← not_or, next_lineEnd, Bool.not_eq_true]
  rw [body_of_midLine s _ hstart] at hheader ⊢
  by_cases hb : s.rest.takeWhile isBlank = []
  · rw [show Mode.skipsBlanks .text = false from rfl,
      show Mode.allowsComments .text = true from rfl, gapLength_of_no_blanks hb]
    exact hheader
  · rcases hrest : s.rest with _ | ⟨c, cs⟩
    · simp [hrest] at hb
    · -- dialogue starts with the blanks that a header passes over
      have hc : isBlank c = true := by
        by_contra hc
        simp [hrest, hc] at hb
      have hbreak : isLineBreak c = false ∧ Text.startsComment (c :: cs) = false := by
        simp only [isBlank, Bool.or_eq_true, decide_eq_true_eq] at hc
        rcases hc with rfl | rfl <;> exact ⟨rfl, rfl⟩
      have hgap : gapLength false true (c :: cs) = 0 := by
        simp [gapLength, gap, commentTrivia, hbreak.2]
      rw [show Mode.skipsBlanks .text = false from rfl,
        show Mode.allowsComments .text = true from rfl,
        hgap, List.drop_zero, Text.atLineEnd, Text.lineBreak?_cons cs hbreak.1]
      rfl

/-- In two modes, what the indentation asks for is the same, or the text itself is read. -/
lemma ahead_or_next {m m' : Mode} (hm : m.isIndentSensitive = false)
    (hm' : m'.isIndentSensitive = false) :
    (s.ahead m).token.kind = (s.ahead m').token.kind ∨
    (s.ahead m).token.kind = (Lexeme.next m (s.body m)).kind ∧
      (s.ahead m').token.kind = (Lexeme.next m' (s.body m')).kind := by
  have hplanned : (s.planned? m).map (·.token) = (s.planned? m').map (·.token) :=
    s.planned?_token (by rintro rfl; simp [Mode.isIndentSensitive] at hm)
      (by rintro rfl; simp [Mode.isIndentSensitive] at hm')
  rw [ahead, ahead, settle_of_insensitive s hm, settle_of_insensitive s hm', scan, scan]
  split
  · rcases h1 : s.planned? m with _ | l <;> rcases h2 : s.planned? m' with _ | l' <;>
      simp only [h1, h2, Option.map_none, Option.map_some, reduceCtorEq, Option.some.injEq]
        at hplanned
    · exact .inr ⟨rfl, rfl⟩
    · exact .inl (by rw [Option.getD_some, Option.getD_some, hplanned])
  · exact .inr ⟨rfl, rfl⟩

/-- Modes that pass over the same trivia see the same text. -/
lemma body_of_skipping {m m' : Mode} (hb : m.skipsBlanks = m'.skipsBlanks)
    (hc : m.allowsComments = m'.allowsComments) : s.body m = s.body m' := by
  cases hstart : s.lineStart
  · rw [body_of_midLine s m hstart, body_of_midLine s m' hstart, hb, hc]
  · rw [body_of_lineStart s m hstart, body_of_lineStart s m' hstart]

/-- Commands and names are errors where expressions are. -/
lemma error_of_terms {m m' : Mode} (hm : m.readsTerms = true) (hm' : m'.readsTerms = true)
    (h : (s.ahead m).token.kind = .errorToken) : (s.ahead m').token.kind = .errorToken := by
  have hskip : ∀ {m : Mode}, m.readsTerms = true →
      m.isIndentSensitive = false ∧ m.skipsBlanks = true ∧ m.allowsComments = false := by
    intro m hm
    cases m <;> simp [Mode.readsTerms] at hm <;> exact ⟨rfl, rfl, rfl⟩
  obtain ⟨h1, h2, h3⟩ := hskip hm
  obtain ⟨h1', h2', h3'⟩ := hskip hm'
  rcases s.ahead_or_next h1 h1' with heq | ⟨heq, heq'⟩
  · rwa [← heq]
  · rw [heq, Lexeme.next_terms hm, body_of_skipping (h2.trans h2'.symm) (h3.trans h3'.symm)] at h
    rwa [heq', Lexeme.next_terms hm']

/-- What is an error behind `#` is one in dialogue. -/
lemma text_error_of_hashtag (h : (s.ahead .hashtag).token.kind = .errorToken) :
    (s.ahead .text).token.kind = .errorToken := by
  rcases @ahead_or_next s .hashtag .text rfl rfl with heq | ⟨heq, heq'⟩
  · rwa [← heq]
  · have hbody : s.body .hashtag = s.body .text := body_of_skipping rfl rfl
    rw [heq, hbody] at h
    rw [heq']
    exact Lexeme.text_of_hashtag h

/-- An error is no end of a line, in any mode that sees it. -/
lemma lineEnd_of_error {m m' : Mode} (hm : m.isIndentSensitive = false)
    (hm' : m'.isIndentSensitive = false) (h : (s.ahead m).token.kind = .errorToken)
    (hbody : (Lexeme.next m (s.body m)).kind = .errorToken → s.body m' = s.body m) :
    (s.ahead m').token.kind ≠ .newline ∧ (s.ahead m').token.kind ≠ .eof := by
  rcases s.ahead_or_next hm hm' with heq | ⟨heq, heq'⟩
  · rw [← heq, h]
    simp
  · rw [heq] at h
    rw [heq', ← not_or, next_lineEnd, hbody h, ← next_lineEnd m, h]
    simp

lemma header_of_value_error (h : (s.ahead .headerValue).token.kind = .errorToken) :
    (s.ahead .header).token.kind ≠ .newline ∧ (s.ahead .header).token.kind ≠ .eof :=
  lineEnd_of_error rfl rfl h fun _ => body_of_skipping rfl rfl

/-- No comment starts where an expression has an error. -/
lemma header_of_expr_error (h : (s.ahead .expr).token.kind = .errorToken) :
    (s.ahead .header).token.kind ≠ .newline ∧ (s.ahead .header).token.kind ≠ .eof := by
  refine lineEnd_of_error rfl rfl h fun hnext => ?_
  cases hstart : s.lineStart
  · have hcomment := Lexeme.not_startsComment_of_expr hnext
    rw [body_of_midLine s _ hstart] at hcomment ⊢
    rw [body_of_midLine s _ hstart]
    have hgap : gapLength true true s.rest = gapLength true false s.rest := by
      have hrest : gapLength true false s.rest = (Trivia.concat (blankTrivia s.rest)).length := by
        simp [gapLength, gap]
      change Text.startsComment (s.rest.drop (gapLength true false s.rest)) = false at hcomment
      rw [hrest] at hcomment ⊢
      simp [gapLength, gap, commentTrivia, hcomment]
    rw [show Mode.skipsBlanks .header = true from rfl, show Mode.allowsComments .header = true
      from rfl, hgap]
    rfl
  · rw [body_of_lineStart s _ hstart, body_of_lineStart s _ hstart]

/-- No blank is an error in dialogue. -/
lemma header_of_text_error (h : (s.ahead .text).token.kind = .errorToken) :
    (s.ahead .header).token.kind ≠ .newline ∧ (s.ahead .header).token.kind ≠ .eof := by
  refine lineEnd_of_error rfl rfl h fun hnext => ?_
  cases hstart : s.lineStart
  · rw [body_of_midLine s _ hstart] at hnext ⊢
    rw [body_of_midLine s _ hstart]
    change (Lexeme.next .text (s.rest.drop (gapLength false true s.rest))).kind =
      .errorToken at hnext
    change s.rest.drop (gapLength true true s.rest) = s.rest.drop (gapLength false true s.rest)
    by_cases hb : s.rest.takeWhile isBlank = []
    · rw [gapLength_of_no_blanks hb]
    · rcases hrest : s.rest with _ | ⟨c, cs⟩
      · simp [hrest] at hb
      · have hc : isBlank c = true := by
          by_contra hc
          simp [hrest, hc] at hb
        have hcomment : Text.startsComment (c :: cs) = false := by
          simp only [isBlank, Bool.or_eq_true, decide_eq_true_eq] at hc
          rcases hc with rfl | rfl <;> rfl
        rw [hrest, show gapLength false true (c :: cs) =
          0 by simp [gapLength, gap, commentTrivia, hcomment], List.drop_zero] at hnext
        simp [Lexeme.not_blank_of_text hnext] at hc
  · rw [body_of_lineStart s _ hstart, body_of_lineStart s _ hstart]

/-- In the middle of a line, the text of a command holds no errors. -/
lemma commandText_ne_error (hstart : s.lineStart = false) :
    (s.ahead .commandText).token.kind ≠ .errorToken := by
  rw [ahead, settle_of_insensitive s rfl, scan, hstart, if_neg (by simp), Option.getD_none,
    content_token]
  exact Lexeme.commandText_ne_error _

/-- The text itself opens and closes no blocks. -/
lemma content_not_structural (s : Scanner) (mode : Mode) :
    (s.content mode).token.kind.isStructural = false := by
  rw [content_token, Token.ofParts]
  have hread := reading_next mode (s.body mode)
  generalize Lexeme.next mode (s.body mode) = x, behind mode (s.body mode) = t' at hread
  cases hread with
  | eof | newline => rfl
  | plain _ _ _ _ hfits => exact hfits.plain.structural

/-- Where the indentation asks for nothing, the line itself is read. -/
lemma not_structural_of_level {p : LinePlan} (hline : s.line = some p) (hd : p.dedents = 0)
    (he : p.entry = .level) : (s.ahead .statement).token.kind.isStructural = false := by
  have hsettled : (s.settle .statement).line = some p := by
    simp [settle_of_sensitive s Mode.isIndentSensitive_statement, hline]
  rw [ahead, scan]
  generalize s.settle .statement = u at hsettled ⊢
  have hplanned : u.planned? .statement = none := by simp [planned?, hsettled, hd, he]
  rw [hplanned, ite_self]
  exact content_not_structural u .statement

/-- What was reported does not matter for what stands next. -/
lemma ahead_setDiagnostics (s : Scanner) (ds : List Diagnostic) (mode : Mode) :
    ({ s with diagnostics := ds } : Scanner).ahead mode = s.ahead mode := by
  rw [ahead, settle_setOutput s s.peeked ds mode, scan_setOutput]
  rfl

/-- Behind the token that opens a block comes the line itself. -/
lemma Takes.behind_indent {s' : Scanner} {mode : Mode} {l : Lexed} (h : Takes s mode l s')
    (hk : l.token.kind = .indent) : (s'.ahead .statement).token.kind.isStructural = false := by
  cases h with
  | dedent => simp at hk
  | blank => simp at hk
  | mismatch p l hline hd he hl => simp [hl, Token.ofParts] at hk
  | content _ hidle hblank hl =>
    have := content_not_structural s mode
    rw [← hl, hk] at this
    simp [Kind.isStructural] at this
  | indent p w hline hd he => exact not_structural_of_level rfl hd rfl

end Scanner

end DialogueScript
