import DialogueScript.Proofs.Scanner.LineStart

/-!
Blank lines that are tokens. Where an item of a group has ended, the first of the skipped lines in
front of the next line is a token of its own if it is blank; everywhere else it is trivia of the
line that follows. The plan of a line knows its blank line until it has been taken, and it cannot be
taken before all blocks are closed.
-/

namespace DialogueScript

namespace Token

/-- Whether the trivia in front of a token begins with a line of blanks. -/
def startsWithBlankLine (t : Token) : Bool :=
  match t.leading with
  | (.newline, _) :: _ => true
  | (.whitespace, _) :: (.newline, _) :: _ => true
  | _ => false

lemma startsWithBlankLine_ofParts (leading : List Trivia) (kind : Kind) (own : Text)
    (trailing : List Trivia) : (ofParts leading kind own trailing).startsWithBlankLine =
      (leadingBlankLine? leading).isSome := by
  rcases leading with _ | ⟨⟨_ | _ | _, a⟩, _ | ⟨⟨_ | _ | _, b⟩, ps⟩⟩ <;>
    simp [startsWithBlankLine, ofParts, Trivia.sizes, leadingBlankLine?]

end Token

namespace Scanner

variable {s s' : Scanner} {mode : Mode} {l : Lexed}

/-- Only behind an item of a group a blank line is a token. -/
lemma Takes.kind_ne_blankLine (h : Takes s mode l s') (hm : mode ≠ .afterOption) :
    l.token.kind ≠ .blankLine := by
  cases h with
  | dedent | indent => simp [Token.ofParts]
  | blank p b t' hafter => exact absurd hafter hm
  | mismatch p _ hline hd he hl => simp [hl, Token.ofParts]
  | content _ hidle hblank hl =>
    subst hl
    rw [content_token, Token.ofParts]
    have hread := reading_next mode (s.body mode)
    generalize Lexeme.next mode (s.body mode) = x, behind mode (s.body mode) = t' at hread
    cases hread with
    | eof | newline => simp
    | plain _ _ _ _ hfits =>
      have hplain := hfits.plain.structural
      intro hk
      change x.kind = _ at hk
      simp [hk, Kind.isStructural] at hplain

lemma Good.ahead_ne_blankLine (h : s.Good) (hm : mode ≠ .afterOption) :
    (s.ahead mode).token.kind ≠ .blankLine :=
  (h.takes mode).kind_ne_blankLine hm

/-! ### The blank line in front of the current line -/

/-- A plan knows the blank line that stands next, if one does. -/
def KnowsBlankLine (s : Scanner) (p : LinePlan) : Prop :=
  p.blankAt? s.offset =
    (leadingBlankLine? (lineTrivia s.rest)).map fun b => .ofSize s.offset (Text.size b)

/-- The plan of the current line knows the blank line in front of it. -/
def SeesBlankLine (s : Scanner) : Prop := ∀ p, s.line = some p → s.KnowsBlankLine p

/-- As long as there are blocks to close, the plan knows the blank line. -/
def Unspent (s : Scanner) : Prop := ∀ p, s.line = some p → 0 < p.dedents → s.KnowsBlankLine p

lemma SeesBlankLine.unspent (h : s.SeesBlankLine) : s.Unspent := fun p hp _ => h p hp

lemma seesBlankLine_of_none (h : s.line = none) : s.SeesBlankLine := by simp [SeesBlankLine, h]

lemma knowsBlankLine_planLine (s : Scanner) :
    s.KnowsBlankLine (planLine s.config s.stack s.offset s.rest) := by
  rw [KnowsBlankLine, planLine_eq, LinePlan.blankAt?]
  cases leadingBlankLine? (lineTrivia s.rest) <;> simp [Range.ofSize]

/-- What settling leaves in place, and a new plan, know the blank line. -/
lemma line_settle (s : Scanner) (mode : Mode) : (s.settle mode).line = s.line ∨
    (s.settle mode).line = some (planLine s.config s.stack s.offset s.rest) := by
  cases hm : mode.isIndentSensitive
  · exact .inl (by rw [settle_of_insensitive s hm])
  · rw [settle_of_sensitive s hm]
    simp only
    split
    · exact .inr rfl
    · exact .inl rfl

lemma SeesBlankLine.settle (h : s.SeesBlankLine) (mode : Mode) : (s.settle mode).SeesBlankLine := by
  simp only [SeesBlankLine, KnowsBlankLine, settle_rest, settle_offset]
  rcases line_settle s mode with hline | hline <;> rw [hline]
  · exact h
  · rintro p ⟨⟩
    exact s.knowsBlankLine_planLine

lemma Unspent.settle (h : s.Unspent) (mode : Mode) : (s.settle mode).Unspent := by
  simp only [Unspent, KnowsBlankLine, settle_rest, settle_offset]
  rcases line_settle s mode with hline | hline <;> rw [hline]
  · exact h
  · rintro p ⟨⟩ -
    exact s.knowsBlankLine_planLine

/-- A block is closed before the blank line can be taken. -/
lemma Takes.unspent (ht : Takes s mode l s') (h : s.Unspent) : s'.Unspent := by
  cases ht with
  | dedent p hline hd =>
    rintro q ⟨⟩ -
    exact h p hline hd
  | blank p b t' hm hline hd =>
    rintro q ⟨⟩ hq
    exact absurd hd hq.ne'
  | indent p w hline hd =>
    rintro q ⟨⟩ hq
    exact absurd hd hq.ne'
  | mismatch | content => exact (seesBlankLine_of_none rfl).unspent

lemma Takes.seesBlankLine_of_dedent (ht : Takes s mode l s') (h : s.Unspent)
    (hk : l.token.kind = .dedent) :
    s'.SeesBlankLine := by
  cases ht with
  | dedent p hline hd =>
    rintro q ⟨⟩
    exact h p hline hd
  | blank | indent => simp [Token.ofParts] at hk
  | mismatch | content => exact seesBlankLine_of_none rfl

/-! ### Behind an item -/

lemma settle_afterOption (s : Scanner) : s.settle .afterOption = s.settle .statement := rfl

/-- Behind an item, a token that is read instead of the blank line has none in front of it. -/
lemma Good.startsWithBlankLine_eq_false (hg : s.Good) (h : s.SeesBlankLine)
    (hk : (s.ahead .afterOption).token.kind.isStructural = false)
    (he : (s.ahead .afterOption).token.kind ≠ .errorToken) :
    (s.ahead .afterOption).token.startsWithBlankLine = false := by
  have ht := hg.takes .afterOption
  have hset := settle_of_sensitive s (show Mode.isIndentSensitive .afterOption = true from rfl)
  have hsees := h.settle .afterOption
  generalize hc : s.settle .afterOption = c at ht hsees hset
  generalize s.ahead .afterOption = l, s.after .afterOption = s' at ht hk he
  cases ht with
  | dedent | blank | indent => simp [Token.ofParts, Kind.isStructural] at hk
  | mismatch p _ hline hd he' hl => simp [hl, Token.ofParts] at he
  | content _ hidle hblank hl =>
    rw [hl, content_token, Token.startsWithBlankLine_ofParts, leading]
    cases hstart : c.lineStart
    · simp [leadingBlankLine?_gap, Mode.skipsBlanks, Mode.allowsComments]
    · obtain ⟨p, hline⟩ : ∃ p, c.line = some p := by
        have hstart' : (s.lineStart || s.atUnterminatedEnd) = true := by rwa [hset] at hstart
        rw [hset, hstart']
        cases s.line <;> simp
      have hknown := hsees p hline
      rw [KnowsBlankLine, hblank rfl p hline, eq_comm, Option.map_eq_none_iff] at hknown
      rw [if_pos rfl, hknown]
      rfl

/-- Apart from the blank line, the next token is the same behind an item and elsewhere. -/
lemma kind_afterOption (hk : (s.ahead .afterOption).token.kind ≠ .blankLine) :
    (s.ahead .statement).token.kind = (s.ahead .afterOption).token.kind := by
  rw [ahead, settle_afterOption] at hk
  rw [ahead, ahead, settle_afterOption]
  generalize s.settle .statement = c at hk
  have hcontent : (c.content .statement).token = (c.content .afterOption).token := by
    rw [content_token, content_token]
    rfl
  unfold scan planned? at hk ⊢
  cases hstart : c.lineStart
  · simp [hcontent]
  · rcases hline : c.line with _ | p
    · simp [hcontent]
    · by_cases hd : 0 < p.dedents
      · simp [hd]
      · rcases hb : p.blankAt? c.offset with _ | b
        · rcases he : p.entry with _ | w | _ <;> simp [hd, hb, he, hcontent]
        · simp [hstart, hline, hd, hb] at hk

/-- Where a header finds the end of the text, no token of the text comes behind an item. -/
lemma Good.eof_afterOption (hg : s.Good) (h : (s.ahead .header).token.kind = .eof)
    (hk : (s.ahead .afterOption).token.kind.isStructural = false)
    (he : (s.ahead .afterOption).token.kind ≠ .errorToken) :
    (s.ahead .afterOption).token.kind = .eof := by
  have hnil := body_of_eof hg.toSane h
  have hbody : (s.settle .afterOption).body .afterOption = [] := by
    cases hs : s.lineStart
    · rw [body_of_midLine s .header hs] at hnil
      have hall : s.rest.drop (gapLength true true s.rest) = [] := hnil
      cases hs' : (s.settle .afterOption).lineStart
      · rw [body_of_midLine _ _ hs', settle_rest]
        exact hnil
      · rw [body_of_lineStart _ _ hs', settle_rest, contentOf_of_none (by rw [hall]; rfl)]
        exact hall
    · rw [body_of_lineStart s .header hs] at hnil
      rw [body_of_lineStart _ _ (by simp [settle_of_sensitive s
        (show Mode.isIndentSensitive .afterOption = true from rfl), hs]), settle_rest]
      exact hnil
  have ht := hg.takes .afterOption
  generalize s.ahead .afterOption = l, s.after .afterOption = s' at ht hk he
  cases ht with
  | dedent | blank | indent => simp [Token.ofParts, Kind.isStructural] at hk
  | mismatch p _ hline hd he' hl => simp [hl, Token.ofParts] at he
  | content _ hidle hblank hl =>
    rw [hl, content_token, hbody, Lexeme.next_nil]
    rfl

end Scanner

end DialogueScript
