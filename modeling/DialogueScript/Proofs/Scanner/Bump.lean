import DialogueScript.Proofs.Scanner.Invariant
import DialogueScript.Proofs.Text.Position

/-!
What taking a token does to a scanner, case by case: it closes a block, takes a blank line, opens a
block, takes a line whose indentation fits nowhere, or takes a token of the text itself. All that is
proved about scanners is read off this list.
-/

namespace DialogueScript

namespace Scanner

/-! ### Tokens of the text -/

section
variable (s : Scanner) (mode : Mode)

/-- The text behind the trivia in front of the next token. -/
def body : Text := s.rest.drop (Trivia.concat (s.leading mode)).length

lemma body_of_lineStart (h : s.lineStart = true) : s.body mode = contentOf s.rest := by
  simp [body, leading, h, contentOf]

lemma body_of_midLine (h : s.lineStart = false) :
    s.body mode = s.rest.drop (gapLength mode.skipsBlanks mode.allowsComments s.rest) := by
  simp [body, leading, h, gapLength]

lemma concat_leading : Trivia.concat (s.leading mode) ++ s.body mode = s.rest := by
  cases h : s.lineStart
  · rw [body_of_midLine s mode h, leading, if_neg (by simp [h]), concat_gap, List.take_append_drop]
  · rw [body_of_lineStart s mode h, leading, if_pos h, concat_lineTrivia]

lemma trailing_newline (t : Text) : trailing mode .newline t = [] := by simp [trailing]

lemma trailing_eof (t : Text) : trailing mode .eof t = [] := by simp [trailing]

lemma concat_trailing (kind : Kind) (t : Text) : Trivia.concat (trailing mode kind t) <+: t ∧
    (Trivia.concat (trailing mode kind t)).length ≤ (Text.firstLine t).length := by
  unfold trailing
  split
  · simp
  · rw [concat_gap]
    refine ⟨List.take_prefix _ _, ?_⟩
    rw [List.length_take]
    exact le_trans (Nat.min_le_left _ _) (gapLength_le _ _ _)

end

/-- A token of the text, of which `t` is the text from the token on and `t'` the text behind the
token and its trailing trivia. -/
inductive Reading (mode : Mode) (t : Text) : Text → Lexeme → Prop where
  | eof : t = [] → Reading mode t [] ⟨.eof, 0, none⟩
  | newline (n : Nat) : Text.lineBreak? t = some n → Reading mode t (t.drop n) ⟨.newline, n, none⟩
  | plain (l : Lexeme) (t' : Text) : t ≠ [] → Text.lineBreak? t = none → l.Fits t →
      t = t.take l.length ++ Trivia.concat (trailing mode l.kind (t.drop l.length)) ++ t' →
      Text.lineTail t' = Text.lineTail t → Reading mode t t' l

/-- The text behind a token and its trailing trivia. -/
def behind (mode : Mode) (t : Text) : Text :=
  let l := Lexeme.next mode t
  (t.drop l.length).drop (Trivia.concat (trailing mode l.kind (t.drop l.length))).length

lemma reading_next (mode : Mode) (t : Text) :
    Reading mode t (behind mode t) (Lexeme.next mode t) := by
  rcases t with _ | ⟨c, cs⟩
  · have : behind mode [] = [] := by simp [behind]
    rw [this, Lexeme.next_nil]
    exact .eof rfl
  · rcases hb : Text.lineBreak? (c :: cs) with _ | n
    · have hfits := Lexeme.fits_next mode cs (Text.lineBreak?_eq_none hb)
      have htrail := concat_trailing mode (Lexeme.next mode (c :: cs)).kind
        ((c :: cs).drop (Lexeme.next mode (c :: cs)).length)
      refine .plain _ _ (by simp) hb hfits ?_ ?_
      · conv_lhs => rw [← List.take_append_drop (Lexeme.next mode (c :: cs)).length (c :: cs)]
        rw [List.append_assoc, behind, List.append_right_inj]
        exact (List.prefix_iff_eq_append.1 htrail.1).symm
      · rw [behind, Text.lineTail_drop htrail.2, Text.lineTail_drop hfits.le]
    · have hnext := Lexeme.next_of_lineBreak? mode hb
      have : behind mode (c :: cs) = (c :: cs).drop n := by
        simp [behind, hnext, trailing_newline]
      rw [this, hnext]
      exact .newline n hb

/-- What stands in front of, in and behind the next token of the text. -/
lemma rest_eq_parts (s : Scanner) (mode : Mode) : s.rest =
    Trivia.concat (s.leading mode) ++
      (s.body mode).take (Lexeme.next mode (s.body mode)).length ++
      Trivia.concat (trailing mode (Lexeme.next mode (s.body mode)).kind
        ((s.body mode).drop (Lexeme.next mode (s.body mode)).length)) ++
      behind mode (s.body mode) := by
  have hlead := concat_leading s mode
  generalize s.body mode = t at hlead
  rw [← hlead, List.append_assoc, List.append_assoc, List.append_right_inj]
  have hread := reading_next mode t
  generalize Lexeme.next mode t = l, behind mode t = t' at hread
  cases hread with
  | eof h => simp [h, trailing_eof]
  | newline n h => simp [trailing_newline]
  | plain _ _ _ _ _ h _ => rw [← List.append_assoc, ← h]

lemma content_eq_body (s : Scanner) (mode : Mode) : s.content mode =
    ⟨(Token.ofParts (s.leading mode) (Lexeme.next mode (s.body mode)).kind
        ((s.body mode).take (Lexeme.next mode (s.body mode)).length)
        (trailing mode (Lexeme.next mode (s.body mode)).kind
          ((s.body mode).drop (Lexeme.next mode (s.body mode)).length))).placed s.offset,
      mode, (Lexeme.next mode (s.body mode)).error, .content⟩ := by
  rw [← place_eq _ _ _ _ (rest_eq_parts s mode), ← Trivia.total_sizes]
  rfl

lemma content_token (s : Scanner) (mode : Mode) : (s.content mode).token =
    .ofParts (s.leading mode) (Lexeme.next mode (s.body mode)).kind
      ((s.body mode).take (Lexeme.next mode (s.body mode)).length)
      (trailing mode (Lexeme.next mode (s.body mode)).kind
        ((s.body mode).drop (Lexeme.next mode (s.body mode)).length)) := by
  rw [content_eq_body]
  rfl

lemma content_fullText (s : Scanner) (mode : Mode) :
    (s.content mode).token.fullText ++ behind mode (s.body mode) = s.rest := by
  rw [content_token]
  exact (rest_eq_parts s mode).symm

/-! ### Taking -/

/-- What stands next for a scanner that has settled in a mode, and the scanner behind it. -/
inductive Takes (s : Scanner) (mode : Mode) : Lexed → Scanner → Prop where
  | dedent (p : LinePlan) : s.line = some p → 0 < p.dedents →
      Takes s mode ⟨Token.placed { kind := .dedent, fullText := [] } s.offset, mode, none, .dedent⟩
        { s with
          stack := s.stack.pop
          line := some { p with dedents := p.dedents - 1 }
          peeked := none }
  | blank (p : LinePlan) (b t' : Text) : mode = .afterOption → s.line = some p → p.dedents = 0 →
      p.blankAt? s.offset = some (.ofSize s.offset (Text.size b)) →
      leadingBlankLine? (lineTrivia s.rest) = some b → s.rest = b ++ t' →
      Takes s mode
        ⟨Token.placed { kind := .blankLine, fullText := b } s.offset, mode, none, .blank⟩
        { s with
          rest := t'
          offset := s.offset + Text.size b
          line := some { p with blank := none }
          peeked := none }
  | indent (p : LinePlan) (w : Nat) : s.line = some p → p.dedents = 0 → p.entry = .deeper w →
      (mode = .afterOption → p.blankAt? s.offset = none) →
      Takes s mode
        ⟨(Token.ofParts (lineTrivia s.rest) .indent [] []).placed s.offset, mode, none, .indent w⟩
        { s with
          rest := contentOf s.rest
          offset := s.offset + Text.size (Trivia.concat (lineTrivia s.rest))
          stack := s.stack.push w
          line := some { p with entry := .level }
          peeked := none }
  | mismatch (p : LinePlan) (l : Lexed) : s.line = some p → p.dedents = 0 → p.entry = .mismatch →
      l = ⟨(Token.ofParts (lineTrivia s.rest) .errorToken
          (Text.firstLine (contentOf s.rest)) []).placed s.offset,
        mode, some .indentationMismatch, .content⟩ →
      (mode = .afterOption → p.blankAt? s.offset = none) →
      Takes s mode l
        { s with
          rest := (contentOf s.rest).drop (Text.firstLine (contentOf s.rest)).length
          offset := s.offset + l.token.size
          lineStart := false
          line := none
          peeked := none
          diagnostics := (s.report l).diagnostics }
  | content (l : Lexed) : (∀ p, s.line = some p → p.dedents = 0 ∧ p.entry = .level) →
      (mode = .afterOption → ∀ p, s.line = some p → p.blankAt? s.offset = none) →
      l = s.content mode →
      Takes s mode l
        { s with
          rest := behind mode (s.body mode)
          offset := s.offset + l.token.size
          lineStart := l.token.kind = .newline
          line := none
          peeked := none
          diagnostics := (s.report l).diagnostics }

lemma report_eq (s : Scanner) (l : Lexed) :
    s.report l = { s with diagnostics := (s.report l).diagnostics } := by
  unfold report
  split <;> rfl

lemma diagnostics_report (s : Scanner)
    (l : Lexed) : ({ s with peeked := none }.report l).diagnostics =
    (s.report l).diagnostics := by
  unfold report
  split <;> rfl

/-- Behind a token that stands next there is the rest of the text. -/
lemma skip_placed {s : Scanner} {token : Token} (hp : token.Proper) {u : Text}
    (h : s.rest = token.fullText ++ u) :
    s.skip (token.placed s.offset) = { s with rest := u, offset := s.offset + token.size } := by
  rw [skip, hp.range_placed, Token.fullRange, Range.ofSize]
  simp only [Token.size, textFrom_of_append h]

lemma take_content {s : Scanner} {l : Lexed} (h : l.effect = .content)
    (hplace : l.toPlacedToken = l.token.placed s.offset) (hp : l.token.Proper) {t' : Text}
    (ht : s.rest = l.token.fullText ++ t') :
    { s with peeked := none }.take l =
      { s with
        rest := t'
        offset := s.offset + l.token.size
        lineStart := l.token.kind = .newline
        line := none
        peeked := none
        diagnostics := (s.report l).diagnostics } := by
  have hskip := skip_placed
    (s := { s with peeked := none, diagnostics := (s.report l).diagnostics }) hp ht
  rw [← hplace] at hskip
  rw [take, h]
  simp only
  rw [report_eq, diagnostics_report, hskip]

lemma take_next (s : Scanner) (mode : Mode) :
    { s with peeked := none }.take (s.content mode) =
      { s with
        rest := behind mode (s.body mode)
        offset := s.offset + (s.content mode).token.size
        lineStart := (s.content mode).token.kind = .newline
        line := none
        peeked := none
        diagnostics := (s.report (s.content mode)).diagnostics } := by
  refine take_content rfl ?_ ?_ (content_fullText s mode).symm
  · rw [content_eq_body]
    rfl
  · rw [content_token]
    exact Token.proper_ofParts _ _ _ _

lemma place_dedent (s : Scanner) : s.place [] .dedent (.empty s.offset) [] =
    Token.placed { kind := .dedent, fullText := [] } s.offset :=
  place_eq (u := s.rest) [] .dedent [] [] rfl

lemma place_blankLine {s : Scanner} {b t' : Text} (h : s.rest = b ++ t') :
    s.place [] .blankLine (.ofSize s.offset (Text.size b)) [] =
      Token.placed { kind := .blankLine, fullText := b } s.offset := by
  have := place_eq (u := t') [] .blankLine b [] (by simpa using h)
  simpa [Token.ofParts, Text.size, Trivia.sizes] using this

section
variable {s : Scanner} {p : LinePlan} (h : s.PlanFits p)
include h

lemma PlanFits.place_indent : s.place (lineTrivia s.rest) .indent (.empty p.content) [] =
    (Token.ofParts (lineTrivia s.rest) .indent [] []).placed s.offset := by
  rw [← place_eq (u := contentOf s.rest) _ .indent [] [] (by simp [concat_lineTrivia]), h.content]
  rfl

lemma PlanFits.textFrom_content : s.textFrom p.content = contentOf s.rest := by
  rw [h.content, textFrom_of_append (concat_lineTrivia s.rest).symm]

lemma PlanFits.place_mismatch : s.place (lineTrivia s.rest) .errorToken
    (.ofSize p.content (Text.size (Text.firstLine (contentOf s.rest)))) [] =
      (Token.ofParts (lineTrivia s.rest) .errorToken (Text.firstLine (contentOf s.rest)) []).placed
        s.offset := by
  rw [h.content]
  refine place_eq (u := (contentOf s.rest).drop (Text.firstLine (contentOf s.rest)).length)
    _ _ _ _ ?_
  rw [Trivia.concat_nil, List.append_nil, List.append_assoc, Text.firstLine_append_drop,
    concat_lineTrivia]

end

/-- **The list is complete**: what stands next is on it, and taking it leads to the scanner
there. -/
lemma takes_scan {s : Scanner} (h : s.Sane) (mode : Mode) :
    Takes s mode (s.scan mode) ({ s with peeked := none }.take (s.scan mode)) := by
  have hcontent : (∀ p, s.line = some p → p.dedents = 0 ∧ p.entry = .level) →
      (mode = .afterOption → ∀ p, s.line = some p → p.blankAt? s.offset = none) →
      s.scan mode = s.content mode →
      Takes s mode (s.scan mode) ({ s with peeked := none }.take (s.scan mode)) := by
    intro hidle hblank hscan
    rw [hscan, take_next]
    exact .content _ hidle hblank rfl
  rcases Option.eq_none_or_eq_some s.line with hline | ⟨p, hline⟩
  · refine hcontent (by simp [hline]) (by simp [hline]) ?_
    simp [scan, planned?, hline]
  · have hfits := h.plan p hline
    have hstart := hfits.lineStart
    by_cases hd : 0 < p.dedents
    · have hscan : s.scan mode =
          ⟨Token.placed { kind := .dedent, fullText := [] } s.offset, mode, none, .dedent⟩ := by
        simp [scan, planned?, hline, hstart, hd, place_dedent]
      rw [hscan]
      have := @Takes.dedent s mode p hline hd
      simpa [take, report, replan, hline] using this
    · have hzero : p.dedents = 0 := by omega
      rcases hb : (if mode = .afterOption then p.blankAt? s.offset else none) with _ | r
      · have hblank : mode = .afterOption → p.blankAt? s.offset = none := by
          intro hm
          rwa [if_pos hm] at hb
        rcases he : p.entry with _ | w | _
        · refine hcontent ?_ ?_ ?_
          · intro q hq
            obtain rfl : p = q := by simpa [hline] using hq
            exact ⟨hzero, he⟩
          · intro hm q hq
            obtain rfl : p = q := by simpa [hline] using hq
            exact hblank hm
          · simp [scan, planned?, hline, hstart, hd, hb, he]
        · have hscan : s.scan mode =
              ⟨(Token.ofParts (lineTrivia s.rest) .indent [] []).placed s.offset,
                mode, none, .indent w⟩ := by
            simp [scan, planned?, hline, hstart, hd, hb, he, hfits.place_indent]
          rw [hscan]
          have := @Takes.indent s mode p w hline hzero he hblank
          have hskip := skip_placed (s := { s with peeked := none }) (u := contentOf s.rest)
            (Token.proper_ofParts (lineTrivia s.rest) .indent [] [])
            (by simp [Token.ofParts, concat_lineTrivia])
          simp only [take, report, replan]
          rw [hskip]
          simpa [hline, Token.ofParts, Token.size] using this
        · have hscan : s.scan mode =
              ⟨(Token.ofParts (lineTrivia s.rest) .errorToken
                  (Text.firstLine (contentOf s.rest)) []).placed s.offset,
                mode, some .indentationMismatch, .content⟩ := by
            simp [scan, planned?, hline, hstart, hd, hb, he, hfits.textFrom_content,
              hfits.place_mismatch]
          have hrest : s.rest = (s.scan mode).token.fullText ++
              (contentOf s.rest).drop (Text.firstLine (contentOf s.rest)).length := by
            rw [hscan]
            simp only [Token.token_placed, Token.ofParts, Trivia.concat_nil, List.append_nil,
              List.append_assoc]
            rw [Text.firstLine_append_drop, concat_lineTrivia]
          have hkind : (s.scan mode).token.kind ≠ .newline := by simp [hscan, Token.ofParts]
          rw [take_content (by rw [hscan]) (by rw [hscan]; rfl)
            (by rw [hscan]; exact Token.proper_ofParts _ _ _ _) hrest, decide_eq_false hkind]
          exact .mismatch p _ hline hzero he hscan hblank
      · obtain ⟨hm, hpb⟩ : mode = .afterOption ∧ p.blankAt? s.offset = some r := by
          split at hb
          · exact ⟨‹_›, hb⟩
          · simp at hb
        obtain ⟨b, hlead, rfl⟩ := hfits.blankAt? hpb
        obtain ⟨t', -, hrest, -, -⟩ := leadingBlankLine?_spec hlead
        have hscan : s.scan mode =
            ⟨Token.placed { kind := .blankLine, fullText := b } s.offset, mode, none, .blank⟩ := by
          simp [scan, planned?, hline, hstart, hd, hb, place_blankLine hrest]
        rw [hscan]
        have := Takes.blank (s := s) p b t' hm hline hzero hpb hlead hrest
        have hskip := skip_placed (s := { s with peeked := none })
          (Token.proper_bare .blankLine b) hrest
        simp only [take, report, replan]
        rw [hskip]
        simpa [hline, Token.size] using this

namespace Takes

variable {s s' : Scanner} {mode : Mode} {l : Lexed}

/-- There is one way to go on. -/
lemma unique {l' : Lexed} {s'' : Scanner} (h : Takes s mode l s') (h' : Takes s mode l' s'') :
    l = l' ∧ s' = s'' := by
  cases h <;> cases h' <;> simp_all

lemma mode_eq (h : Takes s mode l s') : l.mode = mode := by
  cases h <;> simp_all [Scanner.content]

lemma config_eq (h : Takes s mode l s') : s'.config = s.config := by
  cases h <;> rfl

lemma peeked_eq (h : Takes s mode l s') : s'.peeked = none := by
  cases h <;> rfl

lemma diagnostics_eq (h : Takes s mode l s') : s'.diagnostics = (s.report l).diagnostics := by
  cases h <;> rfl

lemma rest_eq (h : Takes s mode l s') : s.rest = l.token.fullText ++ s'.rest := by
  cases h with
  | dedent p hline hd => rfl
  | blank p b t' hm hline hd hb hlead hrest => exact hrest
  | indent p w hline hd he => simp [Token.ofParts, concat_lineTrivia]
  | mismatch p _ hline hd he hl =>
    subst hl
    simp only [Token.token_placed, Token.ofParts, Trivia.concat_nil, List.append_nil,
      List.append_assoc]
    rw [Text.firstLine_append_drop, concat_lineTrivia]
  | content _ hidle hblank hl =>
    subst hl
    exact (content_fullText s mode).symm

lemma offset_eq (h : Takes s mode l s') : s'.offset = s.offset + l.token.size := by
  cases h <;> simp [Token.size, Token.ofParts, Text.size]

lemma proper (h : Takes s mode l s') : l.token.Proper := by
  cases h with
  | dedent | blank => exact Token.proper_bare _ _
  | indent => exact Token.proper_ofParts _ _ _ _
  | mismatch p _ hline hd he hl =>
    subst hl
    exact Token.proper_ofParts _ _ _ _
  | content _ hidle hblank hl =>
    rw [hl, content_token]
    exact Token.proper_ofParts _ _ _ _

/-- **A token knows where it stands.** -/
lemma placed_eq (h : Takes s mode l s') : l.toPlacedToken = l.token.placed s.offset := by
  cases h with
  | dedent | blank | indent => rfl
  | mismatch p _ hline hd he hl =>
    rw [hl]
    rfl
  | content _ hidle hblank hl =>
    rw [hl, content_eq_body]
    rfl

lemma kindRange_eq (h : Takes s mode l s') : l.kindRange = l.token.range s.offset :=
  congrArg PlacedToken.kindRange h.placed_eq

lemma range_eq (h : Takes s mode l s') : l.toPlacedToken.range = ⟨s.offset, s'.offset⟩ := by
  rw [h.placed_eq, h.proper.range_placed, h.offset_eq]
  rfl

/-- A token is an error token exactly if it has an error to report. -/
lemma error_iff (h : Takes s mode l s') : l.token.kind = .errorToken ↔ l.error.isSome := by
  cases h with
  | dedent | blank | indent => simp [Token.ofParts]
  | mismatch p _ hline hd he hl => simp [hl, Token.ofParts]
  | content _ hidle hblank hl =>
    subst hl
    change (Lexeme.next mode (s.body mode)).kind = _ ↔ (Lexeme.next mode (s.body mode)).error.isSome
    have hread := reading_next mode (s.body mode)
    generalize Lexeme.next mode (s.body mode) = x, behind mode (s.body mode) = t' at hread
    cases hread with
    | eof | newline => simp
    | plain _ _ _ _ hfits => exact hfits.error

/-- A token that opens a block begins with the blanks of its line. -/
lemma indent_ne_nil (h : s.Sane) {p : LinePlan} {w : Nat} (hline : s.line = some p)
    (he : p.entry = .deeper w) : Trivia.concat (lineTrivia s.rest) ≠ [] := by
  obtain ⟨hw, hlt⟩ := (h.plan p hline).deeper w he
  intro hnil
  have hblanks : indentationOf (lineTrivia s.rest) = [] := by
    unfold indentationOf
    split
    · next x hx =>
      have hmem := List.mem_of_getLast? hx
      rw [Trivia.concat, List.flatMap_eq_nil_iff] at hnil
      exact hnil _ hmem
    · rfl
  rw [hblanks, IndentStack.measure_nil] at hw
  omega

/-- Where a block has been opened, the blank line in front of it has been passed. -/
lemma blankAt?_indent (h : s.Sane) {p : LinePlan} {w : Nat} (hline : s.line = some p)
    (he : p.entry = .deeper w) :
    p.blankAt? (s.offset + Text.size (Trivia.concat (lineTrivia s.rest))) = none := by
  rw [LinePlan.blankAt?, Option.filter_eq_none_iff]
  intro r hr
  have hle := ((h.plan p hline).blank r hr).1
  have hpos := Text.size_pos (indent_ne_nil h hline he)
  simp only [decide_eq_true_eq]
  omega

/-- **Progress**: a token takes some of the text, or closes an open block, or ends the text. -/
lemma progress (h : s.Sane) (ht : Takes s mode l s') : l.token.fullText ≠ [] ∨
    (l.token.kind = .dedent ∧ l.token.fullText = [] ∧ s.stack.widths ≠ [] ∧
      s'.stack = s.stack.pop) ∨
    (l.token.kind = .eof ∧ s'.rest = []) := by
  cases ht with
  | dedent p hline hd =>
    refine .inr (.inl ⟨rfl, rfl, ?_, rfl⟩)
    have := (h.plan p hline).dedents
    rw [IndentStack.depth] at this
    exact List.ne_nil_of_length_pos (by omega)
  | blank p b t' hm hline hd hb hlead =>
    obtain ⟨_, hne, -⟩ := leadingBlankLine?_spec hlead
    exact .inl hne
  | indent p w hline hd he =>
    left
    simpa [Token.ofParts] using indent_ne_nil h hline he
  | mismatch p _ hline hd he hl =>
    left
    have hne := (h.plan p hline).mismatch he
    have hbreak := lineBreak?_contentOf s.rest
    generalize contentOf s.rest = t at hne hbreak hl
    rcases t with _ | ⟨c, cs⟩
    · simp at hne
    · simp [hl, Token.ofParts, Text.firstLine_cons cs (Text.lineBreak?_eq_none hbreak)]
  | content _ hidle hblank hl =>
    subst hl
    have hkind : (s.content mode).token.kind = (Lexeme.next mode (s.body mode)).kind := rfl
    have hlen : (Lexeme.next mode (s.body mode)).length ≤ (s.body mode).length →
        (Lexeme.next mode (s.body mode)).length ≤ (s.content mode).token.fullText.length := by
      intro hle
      simp only [content_token, Token.ofParts, List.length_append, List.length_take]
      omega
    have hread := reading_next mode (s.body mode)
    generalize Lexeme.next mode (s.body mode) = x,
      behind mode (s.body mode) = t' at hread hkind hlen
    cases hread with
    | eof => exact .inr (.inr ⟨hkind, rfl⟩)
    | newline n hn =>
      have := hlen (Text.lineBreak?_le hn)
      have := (lineBreak?_pos hn).1
      exact .inl (List.ne_nil_of_length_pos (by simp only at *; omega))
    | plain _ _ _ _ hfits =>
      have := hlen (le_trans hfits.le (Text.firstLine_length_le _))
      have := hfits.pos
      exact .inl (List.ne_nil_of_length_pos (by omega))

lemma sane (h : s.Sane) (ht : Takes s mode l s') : s'.Sane := by
  cases ht with
  | dedent p hline hd =>
    obtain ⟨h1, h2, h3, h4, h5, h6⟩ := h.plan p hline
    refine ⟨h.rising.pop, ?_⟩
    rintro _ ⟨⟩
    refine ⟨h1, h2, ?_, h4, fun w hw => ⟨(h5 w hw).1, ?_⟩, h6⟩
    · simp only [IndentStack.depth, IndentStack.pop, List.length_dropLast] at h3 ⊢
      omega
    · have hlt := (h5 w hw).2
      have hn : s.stack.pop.depth - (p.dedents - 1) = s.stack.depth - p.dedents := by
        simp only [IndentStack.depth, IndentStack.pop, List.length_dropLast]
        omega
      have htake : s.stack.pop.widths.take (s.stack.depth - p.dedents) =
          s.stack.widths.take (s.stack.depth - p.dedents) := by
        rw [IndentStack.pop, List.dropLast_eq_take, List.take_take, Nat.min_eq_left]
        rw [IndentStack.depth]
        omega
      rw [hn, htake]
      exact hlt
  | blank p b t' hm hline hd hb hlead hrest =>
    obtain ⟨h1, h2, h3, h4, h5, h6⟩ := h.plan p hline
    obtain ⟨t'', -, hrest', hc, hi⟩ := leadingBlankLine?_spec hlead
    obtain rfl : t' = t'' := List.append_cancel_left (hrest.symm.trans hrest')
    refine ⟨h.rising, ?_⟩
    rintro _ ⟨⟩
    refine ⟨h1, ?_, h3, by simp, ?_, ?_⟩
    · rw [concat_lineTrivia_append hrest hc, Text.size_append] at h2
      simp only [h2, Nat.add_assoc]
    · simpa only [← hi] using h5
    · simpa only [← hc] using h6
  | indent p w hline hd he =>
    obtain ⟨h1, h2, h3, h4, h5, h6⟩ := h.plan p hline
    obtain ⟨hw, hlt⟩ := h5 w he
    refine ⟨h.rising.push ?_, ?_⟩
    · rw [hd, Nat.sub_zero, IndentStack.depth, List.take_length] at hlt
      exact hlt
    · have hpos := Text.size_pos (indent_ne_nil h hline he)
      rintro _ ⟨⟩
      refine ⟨h1, ?_, by simp [hd], fun r hr => ?_, by simp, by simp⟩
      · simp [h2, lineTrivia_contentOf, Text.size]
      · -- the blank line has been passed
        have hle := (h4 r hr).1
        exact ⟨by simp only; omega, fun hat => by simp only at hat; omega⟩
  | mismatch | content => exact ⟨h.rising, by simp⟩

lemma stack_depth_le (ht : Takes s mode l s') : s'.stack.depth ≤ s.stack.depth + 1 := by
  cases ht <;> simp [IndentStack.depth, IndentStack.pop, IndentStack.push]
  omega

/-- **Every token but the last makes the budget smaller.** -/
lemma budget_lt (h : s.Sane) (ht : Takes s mode l s') (hk : l.token.kind ≠ .eof) :
    s'.budget < s.budget := by
  have hrest := congrArg List.length ht.rest_eq
  have hdepth := ht.stack_depth_le
  rw [List.length_append] at hrest
  unfold budget
  rcases ht.progress h with hne | ⟨-, -, hne, hpop⟩ | ⟨heof, -⟩
  · have := List.length_pos_iff.2 hne
    omega
  · have := List.length_pos_iff.2 hne
    simp only [hpop, IndentStack.depth, IndentStack.pop, List.length_dropLast] at *
    omega
  · exact absurd heof hk

lemma of_eof (ht : Takes s mode l s') (hk : l.token.kind = .eof) :
    s'.rest = [] ∧ s'.stack = s.stack ∧ s.body mode = [] := by
  cases ht with
  | dedent | blank | indent => simp [Token.ofParts] at hk
  | mismatch p _ hline hd he hl => simp [hl, Token.ofParts] at hk
  | content _ hidle hblank hl =>
    subst hl
    rw [content_token, Token.ofParts] at hk
    have hread := reading_next mode (s.body mode)
    generalize Lexeme.next mode (s.body mode) = x, behind mode (s.body mode) = t' at hread hk
    cases hread with
    | eof h => exact ⟨rfl, rfl, h⟩
    | newline => simp at hk
    | plain _ _ _ _ hfits => exact absurd hk hfits.plain.eof

end Takes

/-! ### Taking everything -/

lemma bumpRest_of_nil {s : Scanner} (h : s.rest = []) : s.bumpRest =
    (none, { s with stack := .empty, lineStart := false, line := none, peeked := none }) := by
  simp [bumpRest, h]

lemma bumpRest_of_ne_nil {s : Scanner} (h : s.rest ≠ []) : s.bumpRest =
    (some (Token.placed { kind := .errorToken, fullText := s.rest } s.offset),
      { s with
        rest := []
        offset := s.offset + Text.size s.rest
        stack := .empty
        lineStart := false
        line := none
        peeked := none }) := by
  let u : Scanner := { s with stack := .empty, lineStart := false, line := none, peeked := none }
  have hplace : u.place [] .errorToken (.ofSize s.offset (Text.size s.rest)) [] =
      Token.placed { kind := .errorToken, fullText := s.rest } s.offset := by
    have := place_eq (s := u) (u := []) [] .errorToken s.rest [] (by simp [u])
    simpa [Token.ofParts, Text.size, Trivia.sizes, u] using this
  have hskip := skip_placed (s := u) (u := []) (Token.proper_bare .errorToken s.rest) (by simp [u])
  simp only [u] at hplace hskip
  simp only [bumpRest, List.isEmpty_iff, h, if_false, hplace, hskip]
  rfl

/-! ### Looking and taking -/

/-- The token that stands next in a mode. -/
def ahead (s : Scanner) (mode : Mode) : Lexed := (s.settle mode).scan mode

/-- The scanner behind the token that stands next. -/
def after (s : Scanner) (mode : Mode) : Scanner :=
  { s.settle mode with peeked := none }.take (s.ahead mode)

/-- The scanner that has looked at the token that stands next. -/
def looking (s : Scanner) (mode : Mode) : Scanner :=
  { s.settle mode with peeked := some (s.ahead mode) }

section
variable {s : Scanner}

lemma Sane.takes (h : s.Sane) (mode : Mode) :
    Takes (s.settle mode) mode (s.ahead mode) (s.after mode) :=
  takes_scan (h.settle mode) mode

lemma Good.lexed_eq (h : s.Good) (mode : Mode) : s.lexed mode = (s.ahead mode, s.settle mode) := by
  unfold lexed
  split
  · next l hl =>
    simp only [Option.filter_eq_some_iff, decide_eq_true_eq] at hl
    obtain ⟨hl, rfl⟩ := hl
    obtain ⟨h1, h2⟩ := h.peeked l hl
    rw [ahead, h1, ← h2]
  · rfl

lemma Good.peek_eq (h : s.Good) (mode : Mode) :
    s.peek mode = ((s.ahead mode).toPlacedToken, s.looking mode) := by
  rw [peek, h.lexed_eq]
  rfl

lemma Good.bump_eq (h : s.Good) (mode : Mode) :
    s.bump mode = ((s.ahead mode).toPlacedToken, s.after mode) := by
  rw [bump, h.lexed_eq]
  rfl

lemma Good.after (h : s.Good) (mode : Mode) : (s.after mode).Good :=
  ((h.takes mode).sane (h.settle mode)).good (h.takes mode).peeked_eq

/-- Neither settling nor reading asks what was looked at or reported. -/
lemma settle_setOutput (s : Scanner) (o : Option Lexed) (ds : List Diagnostic) (mode : Mode) :
    { s with peeked := o, diagnostics := ds }.settle mode =
      { s.settle mode with peeked := o, diagnostics := ds } := by
  cases h : mode.isIndentSensitive
  · rw [settle_of_insensitive _ h, settle_of_insensitive _ h]
  · rw [settle_of_sensitive _ h, settle_of_sensitive _ h]
    rfl

lemma scan_setOutput (s : Scanner) (o : Option Lexed) (ds : List Diagnostic) (mode : Mode) :
    { s with peeked := o, diagnostics := ds }.scan mode = s.scan mode := rfl

lemma Sane.setOutput (h : s.Sane) (o : Option Lexed) (ds : List Diagnostic) :
    Sane { s with peeked := o, diagnostics := ds } := by
  refine ⟨h.rising, fun p hp => ?_⟩
  obtain ⟨h1, h2, h3, h4, h5, h6⟩ := h.plan p hp
  exact ⟨h1, h2, h3, h4, h5, h6⟩

lemma Good.looking (h : s.Good) (mode : Mode) : (s.looking mode).Good := by
  refine ⟨(h.settle mode).setOutput _ (s.settle mode).diagnostics, fun l hl => ?_⟩
  obtain rfl : s.ahead mode = l := by simpa [Scanner.looking] using hl
  have hmode : (s.ahead mode).mode = mode := (h.takes mode).mode_eq
  have hsettle :=
    settle_setOutput (s.settle mode) (some (s.ahead mode)) (s.settle mode).diagnostics mode
  rw [settle_settle] at hsettle
  rw [hmode]
  exact ⟨hsettle, rfl⟩

section
variable {first mode : Mode} (h : first.Before mode)
include h

/-- Nothing but the token that was looked at shows after settling. -/
lemma settle_looking_of_before :
    (s.looking first).settle mode = { s.settle mode with peeked := some (s.ahead first) } := by
  have hsettle := settle_setOutput (s.settle first) (some (s.ahead first)) s.diagnostics mode
  rw [settle_of_before _ _ h] at hsettle
  simpa [Scanner.looking] using hsettle

/-- What stands next is the same after a look. -/
lemma ahead_of_before : (s.looking first).ahead mode = s.ahead mode := by
  rw [ahead, settle_looking_of_before h]
  rfl

/-- Taking a token forgets what was looked at. -/
lemma after_of_before : (s.looking first).after mode = s.after mode := by
  rw [Scanner.after, ahead_of_before h, settle_looking_of_before h]
  rfl

end

/-- The keyword after the `<<` that stands next, if a command does. -/
def commandAhead (s : Scanner) (mode : Mode) : Option Kind :=
  if (s.ahead mode).token.kind = .commandStart then
    commandKeywordAt? (s.textFrom (s.ahead mode).kindRange.stop)
  else none

lemma kind_of_commandAhead {mode : Mode} {k : Kind} (h : s.commandAhead mode = some k) :
    (s.ahead mode).token.kind = .commandStart := by
  rw [commandAhead] at h
  split at h
  · next hk => exact hk
  · simp at h

lemma Good.peekCommandKeyword_eq (h : s.Good) (mode : Mode) :
    s.peekCommandKeyword mode = (s.commandAhead mode, s.looking mode) := by
  have hfrom (n : Nat) : (s.looking mode).textFrom n = s.textFrom n := by
    simp [textFrom, Scanner.looking]
  unfold peekCommandKeyword commandAhead
  rw [h.peek_eq]
  simp only [hfrom]
  split <;> rfl

/-- The keyword is looked for right behind the `<<`. -/
lemma Good.commandAhead_eq (h : s.Good) {mode : Mode}
    (hk : (s.ahead mode).token.kind = .commandStart) :
    (Lexeme.next mode ((s.settle mode).body mode)).Fits ((s.settle mode).body mode) ∧
      s.commandAhead mode = commandKeywordAt? (((s.settle mode).body mode).drop
        (Lexeme.next mode ((s.settle mode).body mode)).length) := by
  have ht := h.takes mode
  have hrest := settle_rest s mode
  have hoff := settle_offset s mode
  rw [commandAhead, if_pos hk, ht.kindRange_eq, hoff]
  generalize s.ahead mode = l, s.after mode = s' at ht hk
  cases ht with
  | dedent | blank | indent => simp [Token.ofParts] at hk
  | mismatch p _ hline hd he hl => simp [hl, Token.ofParts] at hk
  | content _ hidle hblank hl =>
    subst hl
    have hlead := concat_leading (s.settle mode) mode
    rw [content_token, Token.range_ofParts]
    rw [content_token, Token.ofParts] at hk
    rw [hrest] at hlead
    generalize (s.settle mode).body mode = t at hk hlead
    have hfits : (Lexeme.next mode t).Fits t := by
      have hread := reading_next mode t
      generalize Lexeme.next mode t = x, behind mode t = t' at hread hk
      cases hread with
      | eof | newline => simp at hk
      | plain _ _ _ _ hfits => exact hfits
    refine ⟨hfits, congrArg commandKeywordAt? ?_⟩
    rw [Range.ofSize, Nat.add_assoc, ← Text.size_append]
    refine textFrom_of_append ?_
    rw [List.append_assoc, List.take_append_drop, hlead]

lemma Good.setDiagnostics (h : s.Good) (ds : List Diagnostic) :
    Good { s with diagnostics := ds } := by
  refine ⟨h.setOutput s.peeked ds, fun l hl => ?_⟩
  obtain ⟨h1, h2⟩ := h.peeked l hl
  have hsettle := settle_setOutput s s.peeked ds l.mode
  refine ⟨?_, h2⟩
  rw [h1] at hsettle
  exact hsettle

end

end Scanner

end DialogueScript
