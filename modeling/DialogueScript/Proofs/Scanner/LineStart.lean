import DialogueScript.Proofs.Scanner.Locality

/-!
Where lines start and end. A scanner that has taken a line break looks at a new line; whatever it
may have looked at there, the next token of a header is read as if it had not.
-/

namespace DialogueScript

lemma gapLength_le_all (blanks comments : Bool) (t : Text) :
    gapLength blanks comments t ≤ gapLength true true t := by
  cases blanks
  · cases comments
    · simp [gapLength, gap]
    · simp only [gapLength, gap, Bool.false_eq_true, if_false, if_true, Trivia.concat_nil,
        List.length_nil, List.drop_zero, List.nil_append, Trivia.concat_append, List.length_append,
        concat_commentTrivia, concat_blankTrivia]
      cases hc : Text.startsComment t
      · simp
      · -- a comment has no blanks in front of it
        have hblank : t.takeWhile isBlank = [] := by
          rcases t with _ | ⟨c, cs⟩
          · rfl
          · rw [Text.startsComment, Text.startsWith, show "//".toList = ['/', '/'] from rfl] at hc
            simp only [List.isPrefixOf, Bool.and_eq_true, beq_iff_eq] at hc
            rw [← hc.1]
            rfl
        simp [hblank, hc]
  · cases comments
    · simp [gapLength, gap]
    · exact le_rfl

lemma drop_gapLength_of_blank {t : Text} (h : Text.dropBlanks t = []) :
    t.drop (gapLength true true t) = [] := by
  have hle := gapLength_le_all true false t
  have hlen : gapLength true false t = (t.takeWhile isBlank).length := by
    simp [gapLength, gap, concat_blankTrivia]
  have hall : t.takeWhile isBlank = t := by
    have := List.takeWhile_append_dropWhile (p := isBlank) (l := t)
    rwa [← Text.dropBlanks, h, List.append_nil] at this
  rw [hlen, hall] at hle
  exact List.drop_eq_nil_of_le hle

namespace Lexeme

lemma mem_of_spelledAt? {ks : List Kind} {t : Text} {l : Lexeme} (h : spelledAt? ks t = some l) :
    l.kind ∈ ks := by
  simp only [spelledAt?, Option.map_eq_some_iff] at h
  obtain ⟨k, hk, rfl⟩ := h
  exact List.mem_of_find?_eq_some hk

/-- Text is neither a title nor the end of a body. -/
lemma text_kind_ne (t : Text) : (text t).kind ≠ .titleKw ∧ (text t).kind ≠ .bodyEnd := by
  unfold text
  rcases hs : spelledAt? [.commandStart, .leftBrace, .hash] t with _ | l
  · simp only [Option.getD_none, textEscape, textRun]
    split
    · simp [failure]
    · split
      · split <;> simp [failure]
      · simp [failure]
    · simp
    · simp
    · split <;> simp [failure]
  · have := mem_of_spelledAt? hs
    rw [Option.getD_some]
    constructor <;> intro h <;> simp [h] at this

/-- A title or the end of a body is spelled where a statement could stand. -/
lemma statement_spells {t : Text} {k : Kind} (hk : k = .titleKw ∨ k = .bodyEnd)
    (h : (statement t).kind = k) :
    (k = .titleKw ∧ headerKeyword? t = some .titleKw) ∨
      (k = .bodyEnd ∧ Kind.bodyEnd.chars.isPrefixOf t = true) := by
  unfold statement at h
  rcases hs : spelledAt? [.bodyEnd] t with _ | l
  · rw [hs, Option.getD_none] at h
    split at h
    · next htitle => exact .inl ⟨h.symm, htitle⟩
    · rcases hs' : spelledAt? [.shortcutArrow, .lineGroupArrow] t with _ | l
      · rw [hs', Option.getD_none] at h
        have := text_kind_ne t
        rcases hk with rfl | rfl
        · exact absurd h this.1
        · exact absurd h this.2
      · have := mem_of_spelledAt? hs'
        rw [hs', Option.getD_some] at h
        rcases hk with rfl | rfl <;> simp [h] at this
  · have hmem := mem_of_spelledAt? hs
    rw [hs, Option.getD_some] at h
    refine .inr ⟨h.symm.trans (List.mem_singleton.1 hmem), ?_⟩
    simp only [spelledAt?, Option.map_eq_some_iff] at hs
    obtain ⟨k', hk', -⟩ := hs
    obtain rfl := List.mem_singleton.1 (List.mem_of_find?_eq_some hk')
    simpa using List.find?_some hk'

/-- The word of a title starts with a letter. -/
lemma exists_cons_of_title {t : Text} (h : headerKeyword? t = some .titleKw) :
    ∃ cs, t = 't' :: cs := by
  have hpre := (headerKeyword?_spelled h).2
  rcases t with _ | ⟨c, cs⟩
  · exact absurd hpre (by decide)
  · simp only [show Kind.titleKw.chars = ['t', 'i', 't', 'l', 'e'] from by decide,
      List.isPrefixOf, Bool.and_eq_true, beq_iff_eq] at hpre
    exact ⟨cs, by rw [hpre.1]⟩

lemma header_of_headerKeyword? {t : Text} (h : headerKeyword? t = some .titleKw) :
    header t = spelled .titleKw := by
  have hspelled : spelledAt? [.bodyStart, .bodyEnd] t = none := by
    obtain ⟨cs, rfl⟩ := exists_cons_of_title h
    rfl
  simp [header, hspelled, h]

lemma statement_of_headerKeyword? {t : Text} (h : headerKeyword? t = some .titleKw) :
    statement t = spelled .titleKw := by
  have hspelled : spelledAt? [.bodyEnd] t = none := by
    obtain ⟨cs, rfl⟩ := exists_cons_of_title h
    rfl
  simp [statement, hspelled, h]

end Lexeme

namespace Scanner

/-- A new line starts here, or nothing but trivia is left of the last one. -/
def AtLine (s : Scanner) : Prop :=
  s.lineStart = true ∨ s.rest.drop (gapLength true true s.rest) = []

variable {s : Scanner}

lemma AtLine.settle (h : s.AtLine) (mode : Mode) : (s.settle mode).AtLine := by
  rcases h with h | h
  · left
    cases hm : mode.isIndentSensitive
    · rwa [settle_of_insensitive s hm]
    · simp [settle_of_sensitive s hm, h]
  · right
    rwa [settle_rest]

lemma AtLine.body (h : s.AtLine) (mode : Mode) (hb : mode.skipsBlanks = true)
    (hc : mode.allowsComments = true) : Text.lineBreak? (s.body mode) = none := by
  cases hs : s.lineStart
  · rw [AtLine, hs] at h
    rw [body_of_midLine s mode hs, hb, hc, h.resolve_left (by simp)]
    rfl
  · rw [body_of_lineStart s mode hs]
    exact lineBreak?_contentOf s.rest

/-- No line break stands next. -/
lemma AtLine.kind_ne (hg : s.Sane) (h : s.AtLine) (mode : Mode) (hb : mode.skipsBlanks = true)
    (hc : mode.allowsComments = true) : (s.ahead mode).token.kind ≠ .newline := by
  have ht := hg.takes mode
  have hbody := (h.settle mode).body mode hb hc
  generalize s.ahead mode = l, s.after mode = s' at ht
  cases ht with
  | dedent | blank | indent => simp [Token.ofParts]
  | mismatch p _ hline hd he hl => simp [hl, Token.ofParts]
  | content _ hidle hblank hl =>
    subst hl
    rw [content_token, Token.ofParts]
    have hread := reading_next mode ((s.settle mode).body mode)
    generalize Lexeme.next mode ((s.settle mode).body mode) = x,
      behind mode ((s.settle mode).body mode) = t' at hread
    cases hread with
    | eof => simp
    | newline n hn => simp [hbody] at hn
    | plain _ _ _ _ hfits => exact hfits.plain.newline

/-- Tokens that the indentation asks for are taken at the start of a line and leave its text
alone. -/
lemma Takes.of_structural {s' : Scanner} {mode : Mode} {l : Lexed} (hg : s.Sane)
    (ht : Takes s mode l s') (hk : l.token.kind.isStructural = true) :
    s'.lineStart = true ∧ contentOf s'.rest = contentOf s.rest := by
  cases ht with
  | dedent p hline hd => exact ⟨(hg.plan p hline).lineStart, rfl⟩
  | blank p b t' hm hline hd hb hlead hrest =>
    obtain ⟨t'', -, hrest', hc, -⟩ := leadingBlankLine?_spec hlead
    obtain rfl : t' = t'' := List.append_cancel_left (hrest.symm.trans hrest')
    exact ⟨(hg.plan p hline).lineStart, hc.symm⟩
  | indent p w hline => exact ⟨(hg.plan p hline).lineStart, contentOf_contentOf s.rest⟩
  | mismatch p _ hline hd he hl => simp [hl, Token.ofParts, Kind.isStructural] at hk
  | content _ hidle hblank hl =>
    subst hl
    rw [content_token, Token.ofParts] at hk
    have hread := reading_next mode (s.body mode)
    generalize Lexeme.next mode (s.body mode) = x, behind mode (s.body mode) = t' at hread hk
    cases hread with
    | eof | newline => simp [Kind.isStructural] at hk
    | plain _ _ _ _ hfits => simp [hfits.plain.structural] at hk

lemma atLine_of_structural (hg : s.Sane) {mode : Mode}
    (hk : (s.ahead mode).token.kind = .indent ∨ (s.ahead mode).token.kind = .dedent) :
    (s.after mode).AtLine :=
  .inl ((hg.takes mode).of_structural (hg.settle mode)
    (by rcases hk with hk | hk <;> rw [hk] <;> rfl)).1

/-! ### Lines whose plan is carried out -/

/-- The indentation of the current line asks for nothing more. -/
def PlanDone (s : Scanner) : Prop := ∀ p, s.line = some p → p.dedents = 0 ∧ p.entry = .level

/-- Two scanners in the same state have both done with the indentation, or neither. -/
lemma Alike.planDone {v v' : Text} {b b' : Nat} {s' : Scanner} (h : Alike v v' b b' s s')
    (hs : s.PlanDone) : s'.PlanDone := by
  intro p' hline'
  obtain ⟨p, hline, hp⟩ := h.symm.line_of_some hline'
  rw [hp.dedents, hp.entry]
  exact hs p hline

lemma scan_eq_content (h : s.PlanDone) {mode : Mode} (hm : mode ≠ .afterOption) :
    s.scan mode = s.content mode := by
  have hplanned : s.planned? mode = none := by
    rcases hline : s.line with _ | p
    · simp [planned?, hline]
    · obtain ⟨hd, he⟩ := h p hline
      simp [planned?, hline, hd, he, hm]
  simp [scan, hplanned]

lemma PlanDone.ahead_header (h : s.PlanDone) : s.ahead .header = s.content .header := by
  rw [ahead, settle_of_insensitive s rfl, scan_eq_content h (by simp)]

/-- A token of the text itself comes only after those that the indentation asks for. -/
lemma planDone_of_kind (hg : s.Sane) {mode : Mode}
    (h1 : (s.ahead mode).token.kind.isStructural = false)
    (h2 : (s.ahead mode).token.kind ≠ .errorToken) : (s.settle mode).PlanDone := by
  have ht := hg.takes mode
  generalize s.ahead mode = l, s.after mode = s' at ht h1 h2
  cases ht with
  | dedent | blank | indent => simp [Token.ofParts, Kind.isStructural] at h1
  | mismatch p _ hline hd he hl => simp [hl, Token.ofParts] at h2
  | content _ hidle hblank hl => exact hidle

lemma ahead_looking_of_insensitive {mode : Mode} (hm : mode.isIndentSensitive = false)
    (mode' : Mode) : (s.looking mode).ahead mode' = s.ahead mode' :=
  ahead_of_before (.inl hm)

/-- The last line is over: nothing of the next one has been looked at, or there is none. -/
def Ended (s : Scanner) : Prop := s.isFresh = true ∨ (s.ahead .header).token.kind = .eof

lemma body_of_eof (hg : s.Sane) (h : (s.ahead .header).token.kind = .eof) :
    s.body .header = [] := by
  have hbody := ((hg.takes .header).of_eof h).2.2
  rwa [settle_of_insensitive s rfl] at hbody

lemma Ended.atLine (hg : s.Sane) (h : s.Ended) : s.AtLine := by
  cases hs : s.lineStart
  · right
    rcases h with h | h
    · simp [isFresh, hs] at h
    · have := body_of_eof hg h
      rwa [body_of_midLine s .header hs] at this
  · exact .inl hs

/-- Behind a line break a new line starts, and nothing of it has been looked at. -/
lemma isFresh_of_newline (hg : s.Sane) {mode : Mode} (hk : (s.ahead mode).token.kind = .newline) :
    (s.after mode).isFresh = true := by
  rcases (hg.takes mode).view (hg.settle mode) with ⟨hne, -⟩ | ⟨-, hfresh, -⟩
  · exact absurd hk hne
  · exact hfresh

lemma ended_of_newline (hg : s.Sane) {mode : Mode} (hk : (s.ahead mode).token.kind = .newline) :
    (s.after mode).Ended :=
  .inl (isFresh_of_newline hg hk)

/-- The end of the text is the end in a header as well. -/
lemma eof_of_eof (hg : s.Sane) {mode : Mode} (hk : (s.ahead mode).token.kind = .eof) :
    ((s.looking mode).ahead .header).token.kind = .eof := by
  have hdone : (s.settle mode).PlanDone :=
    planDone_of_kind hg (by simp [hk, Kind.isStructural]) (by simp [hk])
  have hbody := ((hg.takes mode).of_eof hk).2.2
  have hnil : (s.settle mode).body .header = [] := by
    cases hs : (s.settle mode).lineStart
    · rw [body_of_midLine _ mode hs] at hbody
      rw [body_of_midLine _ .header hs]
      have hle := gapLength_le_all mode.skipsBlanks mode.allowsComments (s.settle mode).rest
      rw [List.drop_eq_nil_iff] at hbody ⊢
      exact le_trans hbody hle
    · rwa [body_of_lineStart _ .header hs, ← body_of_lineStart _ mode hs]
  have hscan : (s.looking mode).ahead .header = (s.settle mode).content .header := by
    rw [ahead, settle_of_insensitive _ rfl]
    exact scan_eq_content hdone (by simp)
  rw [hscan, content_token, hnil, Lexeme.next_nil]
  rfl

lemma planLine_entry_of_nil {config : Config} {stack : IndentStack} {offset : Nat} {t : Text}
    (h : contentOf t = []) : (planLine config stack offset t).entry = .level := by
  have hcloses : closesBlocks (contentOf t) = true := by
    rw [h]
    rfl
  simp [planLine_eq, lineEntry, hcloses]

/-- Where the text has ended for a header, a statement finds its end too, or blocks that it
closes. -/
lemma eof_or_dedent (hg : s.Sane) (h : (s.ahead .header).token.kind = .eof) :
    (s.ahead .statement).token.kind = .eof ∨ (s.ahead .statement).token.kind = .dedent := by
  have hbody := body_of_eof hg h
  have hdone : s.PlanDone := by
    have hplan : (s.settle .header).PlanDone :=
      planDone_of_kind hg (by simp [h, Kind.isStructural]) (by simp [h])
    rwa [settle_of_insensitive s rfl] at hplan
  have hset := settle_of_sensitive s (show Mode.isIndentSensitive .statement = true from rfl)
  have hcontent : (s.lineStart || s.atUnterminatedEnd) = true → contentOf s.rest = [] := by
    intro hstart
    cases hs : s.lineStart
    · rw [body_of_midLine s .header hs] at hbody
      have hdrop : s.rest.drop (gapLength true true s.rest) = [] := hbody
      rw [contentOf_of_none (by rw [hdrop]; rfl), hdrop]
    · rwa [body_of_lineStart s .header hs] at hbody
  have hnil : (s.settle .statement).body .statement = [] := by
    cases hs : s.lineStart || s.atUnterminatedEnd
    · rw [body_of_midLine _ .statement (by rw [hset]; exact hs), settle_rest]
      rwa [body_of_midLine s .header (Bool.or_eq_false_iff.1 hs).1] at hbody
    · rw [body_of_lineStart _ .statement (by rw [hset]; exact hs), settle_rest]
      exact hcontent hs
  have hlevel : ∀ p, (s.settle .statement).line = some p → p.entry = .level := by
    intro p hp
    rw [hset] at hp
    dsimp only at hp
    split at hp
    · next hc =>
      obtain rfl := Option.some.inj hp
      exact planLine_entry_of_nil (hcontent (Bool.and_eq_true_iff.1 hc).1)
    · exact (hdone p hp).2
  have ht := hg.takes .statement
  generalize s.settle .statement = u, s.ahead .statement = l,
    s.after .statement = s' at ht hnil hlevel
  cases ht with
  | dedent => exact .inr rfl
  | blank p b t' hm => simp at hm
  | indent p w hline _ he => simp [hlevel p hline] at he
  | mismatch p _ hline _ he => simp [hlevel p hline] at he
  | content _ _ _ hl =>
    left
    rw [hl, content_token, hnil, Lexeme.next_nil]
    rfl
/-- In the middle of a line, the next token is a line break exactly if one stands there. -/
lemma kind_eq_newline_iff {mode : Mode} (h : (s.settle mode).lineStart = false) :
    (s.ahead mode).token.kind = .newline ↔
      Text.lineBreak? ((s.settle mode).body mode) ≠ none := by
  rw [ahead, scan, h, if_neg (by simp), Option.getD_none, content_token, Token.ofParts]
  have hread := reading_next mode ((s.settle mode).body mode)
  generalize Lexeme.next mode ((s.settle mode).body mode) = x,
    behind mode ((s.settle mode).body mode) = t' at hread
  cases hread with
  | eof hnil => simp [hnil, Text.lineBreak?]
  | newline n hn => simp [hn]
  | plain _ _ _ hbreak hfits => simp [hbreak, hfits.plain.newline]

/-- A line break that ends a header line also ends a line of a body. -/
lemma newline_of_header (hg : s.Sane) (hk : (s.ahead .header).token.kind = .newline) :
    (s.ahead .statement).token.kind = .newline := by
  have hsettle : s.settle .header = s := settle_of_insensitive s rfl
  have hstart : s.lineStart = false := by
    by_contra h
    exact AtLine.kind_ne hg (.inl (by simpa using h)) .header rfl rfl hk
  have hbreak := (kind_eq_newline_iff (by rwa [hsettle])).1 hk
  rw [hsettle, body_of_midLine s .header hstart] at hbreak
  -- something is left of the line, so it is not the unterminated end of the text
  have hend : s.atUnterminatedEnd = false := by
    by_contra h
    simp only [atUnterminatedEnd, Bool.and_eq_true, List.isEmpty_iff, Bool.not_eq_false] at h
    have hdrop := drop_gapLength_of_blank h.2
    exact hbreak (by rw [show Mode.skipsBlanks .header = true from rfl,
      show Mode.allowsComments .header = true from rfl, hdrop]; rfl)
  have hsettle' : (s.settle .statement).lineStart = false := by
    simp [settle_of_sensitive s (show Mode.isIndentSensitive .statement = true from rfl),
      hstart, hend]
  rw [kind_eq_newline_iff hsettle', body_of_midLine _ .statement hsettle', settle_rest]
  exact hbreak

/-! ### Starting a line again -/

/-- A scanner at the start of a line that knows nothing of it. -/
def renewed (s : Scanner) : Scanner := atLine s.config s.rest s.offset s.stack

lemma leading_renewed (hbreak : Text.lineBreak? (s.body .header) = none) :
    s.renewed.leading .header = s.leading .header := by
  cases hs : s.lineStart
  · rw [body_of_midLine s .header hs] at hbreak
    simp only [leading, hs, Bool.false_eq_true, if_false]
    exact lineTrivia_of_none hbreak
  · simp only [leading, hs, if_true]
    rfl

/-- The next token of a header is the same for a scanner that knows nothing of the line. -/
lemma ahead_renewed (h : s.PlanDone) (hbreak : Text.lineBreak? (s.body .header) = none) :
    s.renewed.ahead .header = s.ahead .header := by
  have hdone : s.renewed.PlanDone := by simp [PlanDone, renewed, atLine]
  rw [hdone.ahead_header, h.ahead_header]
  simp only [content, leading_renewed hbreak]
  rfl

lemma after_renewed (h : s.PlanDone) (hbreak : Text.lineBreak? (s.body .header) = none)
    (hd : s.diagnostics = []) : s.renewed.after .header = s.after .header := by
  have hahead := ahead_renewed h hbreak
  have hdone : s.renewed.PlanDone := by simp [PlanDone, renewed, atLine]
  have hbody : s.renewed.body .header = s.body .header := by
    rw [body, body, leading_renewed hbreak]
    rfl
  rw [h.ahead_header, hdone.ahead_header] at hahead
  rw [after, after, settle_of_insensitive _ rfl, settle_of_insensitive _ rfl, h.ahead_header,
    hdone.ahead_header, take_next, take_next, hahead, hbody]
  simp only [renewed, atLine, report, hd]
  cases (s.content .header).error <;> simp [hd]

end Scanner

end DialogueScript
