import DialogueScript.Proofs.Grammar.Course
import DialogueScript.Proofs.Scanner.LineSpelling

/-!
Reading at the start of a line: the tokens that close and open blocks, and then the first token of
the line's own text. After a line break the scanner stands at the start of the next line.
-/

namespace DialogueScript

open Scanner

namespace Scanner

/-- The scanner has not looked at anything behind a line break, with `d` blocks open. -/
structure Fresh (d : Nat) (r : Text) (s : Scanner) : Prop where
  lineStart : s.lineStart = true
  line : s.line = none
  rest : s.rest = r
  stack : s.stack = .nested d

/-- The scanner stands at the start of a line, with `d` blocks open. The line belongs into `j`
blocks and has the content `c`; what its indentation asks for may have been found out already. -/
structure LineAt (d j : Nat) (c : Text) (s : Scanner) : Prop where
  lineStart : s.lineStart = true
  stack : s.stack = .nested d
  content : c.Content
  rest : ∃ b, b.all isBlank = true ∧ s.rest = b ++ c
  line : (∃ p : LinePlan, s.line = some p ∧ p.Leads d j) ∨
    s.line = none ∧ (planLine s.config (.nested d) s.offset s.rest).Leads d j

namespace LineAt

variable {d j : Nat} {c : Text} {s : Scanner} {mode : Mode}

lemma of_line {r : Text} (h : LineOf j c r) (hj : j ≤ d + 1) (hs : s.Fresh d r) : s.LineAt d j c :=
  ⟨hs.lineStart, hs.stack, h.content, ⟨pad j, isBlank_pad j, hs.rest.trans h.eq⟩,
    .inr ⟨hs.line, by rw [hs.rest]; exact planLine_line h hj _⟩⟩

lemma settle_sensitive (h : s.LineAt d j c) (hm : mode.isIndentSensitive = true) :
    ∃ p : LinePlan, p.Leads d j ∧ s.settle mode = { s with line := some p } := by
  rw [settle_of_sensitive s hm]
  rcases h.line with ⟨p, hl, hp⟩ | ⟨hl, hp⟩
  · exact ⟨p, hp, by simp [h.lineStart, hl]⟩
  · exact ⟨_, hp, by simp [h.lineStart, hl, h.stack]⟩

lemma settle (h : s.LineAt d j c) (mode : Mode) : (s.settle mode).LineAt d j c := by
  cases hm : mode.isIndentSensitive
  · rwa [settle_of_insensitive s hm]
  · obtain ⟨p, hp, hsettle⟩ := h.settle_sensitive hm
    rw [hsettle]
    exact ⟨h.lineStart, h.stack, h.content, h.rest, .inl ⟨p, rfl, hp⟩⟩

lemma setPeeked (h : s.LineAt d j c) (o : Option Lexed) : LineAt d j c { s with peeked := o } :=
  ⟨h.lineStart, h.stack, h.content, h.rest, h.line⟩

lemma body (h : s.LineAt d j c) (mode : Mode) : s.body mode = c := by
  obtain ⟨b, hb, hrest⟩ := h.rest
  rw [body_of_lineStart _ _ h.lineStart, hrest, contentOf_content hb h.content]

/-- At its own level a line starts with its own first token. -/
lemma scan (h : s.LineAt d d c) (mode : Mode) : s.scan mode = s.content mode := by
  have hplan : s.planned? mode = none := by
    rcases h.line with ⟨p, hl, hp⟩ | ⟨hl, -⟩
    · simp [planned?, hl, hp.dedents, hp.blankAt?, hp.entry]
    · simp [planned?, hl]
  rw [Scanner.scan, if_pos h.lineStart, hplan]
  rfl

/-- A line that belongs into fewer blocks closes one. -/
lemma takes_dedent (h : s.LineAt d j c) (hs : s.Good) (hm : mode.isIndentSensitive = true)
    (hj : j < d) : s.ahead mode =
      ⟨(Token.ofParts [] .dedent [] []).placed s.offset, mode, none, .dedent⟩ ∧
      ∃ p : LinePlan, p.Leads d j ∧ s.after mode =
        { s with
          stack := s.stack.pop
          line := some { p with dedents := p.dedents - 1 }
          peeked := none } := by
  obtain ⟨p, hp, hsettle⟩ := h.settle_sensitive hm
  have ht := hs.takes mode
  rw [hsettle] at ht
  obtain ⟨h1, h2⟩ := ht.unique (.dedent p rfl (by rw [hp.dedents]; omega))
  exact ⟨h1, p, hp, h2⟩

/-- A line that belongs into one block more opens it. -/
lemma takes_indent (h : s.LineAt d (d + 1) c) (hs : s.Good) (hm : mode.isIndentSensitive = true) :
    s.ahead mode = ⟨(Token.ofParts (lineTrivia s.rest) .indent [] []).placed s.offset, mode, none,
      .indent (4 * (d + 1))⟩ ∧
      ∃ p : LinePlan, p.Leads d (d + 1) ∧ s.after mode =
        { s with
          rest := contentOf s.rest
          offset := s.offset + Text.size (Trivia.concat (lineTrivia s.rest))
          stack := s.stack.push (4 * (d + 1))
          line := some { p with entry := .level }
          peeked := none } := by
  obtain ⟨p, hp, hsettle⟩ := h.settle_sensitive hm
  have ht := hs.takes mode
  rw [hsettle] at ht
  obtain ⟨h1, h2⟩ := ht.unique (.indent p (4 * (d + 1)) rfl (by simp [hp.dedents])
    (by simp [hp.entry]) fun _ => hp.blankAt? _)
  exact ⟨h1, p, hp, h2⟩

end LineAt

end Scanner

namespace Parser

open ParserState

variable {d j : Nat} {c w b r : Text} {mode : Mode} {k : Kind} {s : ParserState}

lemma LineAt.look (h : s.At (LineAt d j c)) (mode : Mode) : (s.look mode).At (LineAt d j c) :=
  ⟨h.good.look mode, ⟨h.quiet.never, h.quiet.running⟩, (h.here.settle mode).setPeeked _⟩

/-- Taking a token that the indentation asks for. -/
lemma take_structural {k : Kind} {leading : List Trivia} {effect : Effect} {n : Nat} (hg : s.Good)
    (hahead : s.scanner.ahead mode =
      ⟨(Token.ofParts leading k [] []).placed n, mode, none, effect⟩) :
    (s.take mode).diagnostics = s.diagnostics ∧ ∃ token : Token, token.kind = k ∧ token.text = [] ∧
      (s.take mode).forest = s.forest.add (.leaf token) := by
  refine ⟨?_, (s.scanner.ahead mode).token, ?_, ?_, rfl⟩
  · rw [hg.diagnostics_take, hahead]
    simp [errorsOf]
  · rw [hahead]
    rfl
  · rw [hahead]
    exact Token.text_ofParts ..

/-- A line that belongs into fewer blocks closes one. -/
lemma LineAt.offers_dedent (hm : mode.isIndentSensitive = true) (hj : j ≤ d) :
    Offers mode .dedent [] (LineAt (d + 1) j c) (LineAt d j c) where
  kind s h := by
    rw [ParserState.kindAt, (h.here.takes_dedent h.good.scanner hm (by omega)).1]
    rfl
  look s h := LineAt.look h mode
  take s h := by
    obtain ⟨hahead, p, hp, hafter⟩ := h.here.takes_dedent h.good.scanner hm (by omega)
    obtain ⟨h1, h2⟩ := take_structural h.good hahead
    refine ⟨⟨h.good.take mode, ⟨h.quiet.never, h.quiet.running⟩, ?_⟩, h1, h2⟩
    obtain ⟨hstart, hstack, hcontent, hrest, -⟩ := h.here
    rw [ParserState.take, hafter]
    refine ⟨hstart, by simp [hstack, IndentStack.pop_nested_succ], hcontent, hrest,
      .inl ⟨_, rfl, ?_, hp.blank, ?_⟩⟩
    · simp only [hp.dedents]
      omega
    · rw [hp.entry, if_neg (by omega), if_neg (by omega)]

/-- A line that belongs into one block more opens it. -/
lemma LineAt.offers_indent (hm : mode.isIndentSensitive = true) :
    Offers mode .indent [] (LineAt d (d + 1) c) (LineAt (d + 1) (d + 1) c) where
  kind s h := by
    rw [ParserState.kindAt, (h.here.takes_indent h.good.scanner hm).1]
    rfl
  look s h := LineAt.look h mode
  take s h := by
    obtain ⟨hahead, p, hp, hafter⟩ := h.here.takes_indent h.good.scanner hm
    obtain ⟨h1, h2⟩ := take_structural h.good hahead
    refine ⟨⟨h.good.take mode, ⟨h.quiet.never, h.quiet.running⟩, ?_⟩, h1, h2⟩
    obtain ⟨hstart, hstack, hcontent, ⟨b, hb, hrest⟩, -⟩ := h.here
    rw [ParserState.take, hafter]
    refine ⟨hstart, by simp [hstack, IndentStack.nested_succ], hcontent, ⟨[], rfl, ?_⟩,
      .inl ⟨_, rfl, by simp [hp.dedents], hp.blank, by simp⟩⟩
    simp only [hrest, contentOf_content hb hcontent, List.nil_append]

/-- The kind of the token that stands next in a statement. -/
def kindOf (d j : Nat) (c : Text) : Kind :=
  if j < d then .dedent else if d < j then .indent else (Lexeme.next .statement c).kind

lemma LineAt.faces (hm : mode.isIndentSensitive = true) (hj : j ≤ d + 1) :
    Faces mode (kindOf d j c) (LineAt d j c) where
  kind s h := by
    rw [ParserState.kindAt, kindOf]
    split
    · next hlt =>
      rw [(h.here.takes_dedent h.good.scanner hm hlt).1]
      rfl
    · split
      · next h1 h2 =>
        obtain rfl : j = d + 1 := by omega
        rw [(h.here.takes_indent h.good.scanner hm).1]
        rfl
      · next h1 h2 =>
        obtain rfl : j = d := by omega
        have hnext : Lexeme.next mode c = Lexeme.next .statement c := by
          cases mode <;> simp [Mode.isIndentSensitive] at hm <;> rfl
        rw [ahead, (h.here.settle mode).scan, content_token, (h.here.settle mode).body, hnext]
        rfl
  look s h := LineAt.look h mode

/-- A token of the line itself, at the level of the line. -/
lemma LineAt.offers (ht : TokenAt mode k w b r) (hk : k ≠ .newline) :
    Offers mode k w (LineAt d d (w ++ b ++ r)) (Midline (.nested d) r) where
  kind s h := by
    rw [ParserState.kindAt,
      ahead_content ((h.here.settle mode).scan mode) ((h.here.settle mode).body mode) ht]
    rfl
  look s h := LineAt.look h mode
  take s h := by
    obtain ⟨h1, h2, n, h3⟩ := take_content h.good ((h.here.settle mode).scan mode)
      ((h.here.settle mode).body mode) ht
    refine ⟨⟨h.good.take mode, ⟨h.quiet.never, h.quiet.running⟩, ?_⟩, h1, h2⟩
    rw [h3]
    exact ⟨by simp [hk], rfl, rfl, h.here.stack⟩

/-- Behind a line break the next line starts. -/
lemma Midline.offers_newline (hm : mode.isIndentSensitive = false) :
    Offers mode .newline ['\n'] (Midline (.nested d) ('\n' :: r)) (Fresh d r) where
  toFaces := Midline.faces (facing_newline hm)
  take s h := by
    obtain ⟨h1, h2⟩ := Midline.scan (facing_newline hm) h.here
    obtain ⟨h3, h4, n, h5⟩ := take_content h.good h1 h2 (facing_newline hm).toTokenAt
    refine ⟨⟨h.good.take mode, ⟨h.quiet.never, h.quiet.running⟩, ?_⟩, h3, h4⟩
    rw [h5]
    exact ⟨rfl, rfl, rfl, h.here.stack⟩

lemma Offers.weaken {q q' q'' : Scanner → Prop} (h : Offers mode k w q q')
    (hq : ∀ ⦃s⦄, q' s → q'' s) : Offers mode k w q q'' where
  toFaces := h.toFaces
  take s hs := by
    obtain ⟨⟨h1, h2, h3⟩, h4⟩ := h.take hs
    exact ⟨⟨h1, h2, hq h3⟩, h4⟩

/-- A line break in front of a line. -/
lemma Midline.offers_line (hm : mode.isIndentSensitive = false) (hr : LineOf j c r)
    (hj : j ≤ d + 1) :
    Offers mode .newline ['\n'] (Midline (.nested d) ('\n' :: r)) (LineAt d j c) :=
  (Midline.offers_newline hm).weaken fun _ h => .of_line hr hj h

/-- At the end of the text there is nothing more to read. -/
lemma Fresh.offers_eof : Offers .header .eof [] (Fresh 0 []) (fun _ => True) where
  kind s h := by
    rw [ParserState.kindAt, ahead, settle_of_insensitive _ rfl, Scanner.scan, planned?, h.here.line]
    simp [content_token, Scanner.body, h.here.rest, Lexeme.next, Token.ofParts]
  look s h := by
    refine ⟨h.good.look .header, ⟨h.quiet.never, h.quiet.running⟩, ?_⟩
    have heq : (s.look .header).scanner =
        { s.scanner with peeked := some (s.scanner.ahead .header) } := by
      have hsettle : s.scanner.settle .header = s.scanner := settle_of_insensitive _ rfl
      simp [ParserState.look, Scanner.looking, hsettle]
    rw [heq]
    exact ⟨h.here.lineStart, h.here.line, h.here.rest, h.here.stack⟩
  take s h := by
    have hscan :
        (s.scanner.settle .header).scan .header = (s.scanner.settle .header).content .header := by
      rw [settle_of_insensitive _ rfl, Scanner.scan, planned?, h.here.line]
      simp
    have hbody : (s.scanner.settle .header).body .header = [] ++ [] ++ [] := by
      rw [settle_of_insensitive _ rfl]
      simp [Scanner.body, h.here.rest]
    obtain ⟨h1, h2, -⟩ := take_content (k := .eof) h.good hscan hbody ⟨rfl, rfl⟩
    exact ⟨⟨h.good.take .header, ⟨h.quiet.never, h.quiet.running⟩, trivial⟩, h1, h2⟩

end Parser

end DialogueScript
