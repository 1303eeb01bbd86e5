import DialogueScript.Proofs.Scanner.Bump
import DialogueScript.Proofs.Text.Position

/-!
A scanner under any sequence of calls, in any modes. The tokens it hands out cover the text without
gaps, and it cannot stand still: a call that takes a token consumes text, closes an open block, or
has reached the end.
-/

namespace DialogueScript

namespace Scanner

/-- What a reader can ask of a scanner. -/
inductive Call where
  | bump (mode : Mode)
  | peek (mode : Mode)
  | peekCommandKeyword (mode : Mode)
  | takeDiagnostics
  | bumpRest
deriving DecidableEq, Repr

/-- The token that a call takes, if it takes one, and the scanner after the call. -/
def call (s : Scanner) : Call → Option PlacedToken × Scanner
  | .bump mode => let (token, s) := s.bump mode; (some token, s)
  | .peek mode => (none, (s.peek mode).2)
  | .peekCommandKeyword mode => (none, (s.peekCommandKeyword mode).2)
  | .takeDiagnostics => (none, s.takeDiagnostics.2)
  | .bumpRest => s.bumpRest

/-- The tokens taken by a sequence of calls, and the scanner after them. -/
def calls (s : Scanner) : List Call → List PlacedToken × Scanner
  | [] => ([], s)
  | c :: cs =>
    let (token, s) := s.call c
    let (tokens, s) := s.calls cs
    (token.toList ++ tokens, s)

/-- What is left to read is the end of `t`, from the scanner's position on. -/
def Within (t : Text) (s : Scanner) : Prop := ∃ pre, t = pre ++ s.rest ∧ s.offset = Text.size pre

/-- A part of a text stands between two of its positions. -/
def Covers (t : Text) (start stop : Nat) (part : Text) : Prop :=
  ∃ before after, t = before ++ part ++ after ∧ start = Text.size before ∧
    stop = Text.size before + Text.size part

lemma covers_append (before part after : Text) :
    Covers (before ++ part ++ after) (Text.size before) (Text.size before + Text.size part) part :=
  ⟨before, after, rfl, rfl, rfl⟩

lemma Covers.append {t a b : Text} {i j k : Nat} (h1 : Covers t i j a) (h2 : Covers t j k b) :
    Covers t i k (a ++ b) := by
  obtain ⟨before, after, rfl, rfl, rfl⟩ := h1
  obtain ⟨before', after', heq, hj, rfl⟩ := h2
  rw [List.append_assoc before'] at heq
  obtain ⟨rfl, rfl⟩ := Text.append_inj_of_size heq (by rw [Text.size_append, hj])
  exact ⟨before, after', by simp, rfl, by simp [Nat.add_assoc]⟩

/-- What a call that takes a token promises of the scanners before and after it: the own text of the
token stands behind the trivia in front of it, with the trivia on both sides the token ranges from
the position of the one to that of the other and is the text there, and the call made progress. -/
structure Taken (t : Text) (s : Scanner) (next : PlacedToken) (s' : Scanner) : Prop where
  ownStart : next.kindRange.start = s.offset + next.token.leading.total
  range : next.range = ⟨s.offset, s'.offset⟩
  covers : Covers t s.offset s'.offset next.token.fullText
  progress : s.offset < s'.offset ∨
    (next.token.kind = .dedent ∧ s'.offset = s.offset ∧ s.stack ≠ .empty ∧
      s'.stack = s.stack.pop) ∨
    (next.token.kind = .eof ∧ s'.offset = Text.size t)

section
variable {t : Text} {s : Scanner}

lemma Within.settle (h : s.Within t) (mode : Mode) : (s.settle mode).Within t := by
  simpa [Within] using h

lemma taken_bump (hs : s.Good) (h : s.Within t) (mode : Mode) :
    Taken t s (s.bump mode).1 (s.bump mode).2 ∧ (s.bump mode).2.Within t := by
  rw [hs.bump_eq]
  have ht := hs.takes mode
  have hrest := ht.rest_eq
  have hoff := ht.offset_eq
  rw [settle_rest] at hrest
  rw [settle_offset] at hoff
  obtain ⟨pre, rfl, hpre⟩ := h
  refine ⟨⟨?_, ?_, ?_, ?_⟩, pre ++ (s.ahead mode).token.fullText, ?_, ?_⟩
  · simp only [ht.kindRange_eq, Token.range, Range.ofSize, settle_offset]
  · rw [ht.range_eq, settle_offset]
  · rw [hoff, hpre, hrest, ← List.append_assoc]
    exact covers_append _ _ _
  · rcases ht.progress (hs.settle mode) with hne | ⟨hk, htext, hstack, hpop⟩ | ⟨hk, hnil⟩
    · left
      have := Text.size_pos hne
      simp only [hoff, Token.size]
      omega
    · right; left
      refine ⟨hk, by simp [hoff, Token.size, htext, Text.size], ?_, by simpa using hpop⟩
      rintro heq
      simp [heq, IndentStack.empty] at hstack
    · right; right
      refine ⟨hk, ?_⟩
      rw [hoff, hpre, hrest, hnil, List.append_nil, Text.size_append, Token.size]
  · rw [List.append_assoc, ← hrest]
  · rw [hoff, hpre, Text.size_append, Token.size]

lemma taken_bumpRest (h : s.Within t) {next : PlacedToken} (ht : s.bumpRest.1 = some next) :
    Taken t s next s.bumpRest.2 := by
  obtain ⟨pre, rfl, hpre⟩ := h
  by_cases hnil : s.rest = []
  · simp [bumpRest_of_nil hnil] at ht
  · have hpos := Text.size_pos hnil
    rw [bumpRest_of_ne_nil hnil] at ht ⊢
    obtain rfl := Option.some.inj ht
    refine ⟨rfl, (Token.proper_bare .errorToken s.rest).range_placed s.offset, ?_, .inl ?_⟩
    · have := covers_append pre s.rest []
      simpa [hpre] using this
    · simp only
      omega

lemma within_bumpRest (h : s.Within t) : s.bumpRest.2.Within t := by
  obtain ⟨pre, rfl, hpre⟩ := h
  by_cases hnil : s.rest = []
  · rw [bumpRest_of_nil hnil]
    exact ⟨pre, rfl, hpre⟩
  · rw [bumpRest_of_ne_nil hnil]
    exact ⟨pre ++ s.rest, by simp, by simp [hpre]⟩

lemma good_bumpRest (s : Scanner) : s.bumpRest.2.Good := by
  by_cases hnil : s.rest = []
  · rw [bumpRest_of_nil hnil]
    exact Sane.good ⟨IndentStack.rising_empty, by simp⟩ rfl
  · rw [bumpRest_of_ne_nil hnil]
    exact Sane.good ⟨IndentStack.rising_empty, by simp⟩ rfl

/-- One call keeps the invariant and the place in the text. -/
lemma call_spec (hs : s.Good) (h : s.Within t) (c : Call) :
    (s.call c).2.Good ∧ (s.call c).2.Within t ∧
      (∀ next, (s.call c).1 = some next → Taken t s next (s.call c).2) ∧
      ((s.call c).1 = none → (s.call c).2.offset = s.offset) := by
  have hpeek : ∀ mode, (s.peek mode).2.Good ∧ (s.peek mode).2.Within t ∧
      (s.peek mode).2.offset = s.offset := by
    intro mode
    rw [hs.peek_eq]
    exact ⟨hs.looking mode, h.settle mode, settle_offset s mode⟩
  cases c with
  | bump mode =>
    obtain ⟨h1, h2⟩ := taken_bump hs h mode
    refine ⟨?_, h2, ?_, by simp [call]⟩
    · simp only [call, hs.bump_eq]
      exact hs.after mode
    · rintro next ⟨⟩
      exact h1
  | peek mode => exact ⟨(hpeek mode).1, (hpeek mode).2.1, by simp [call], fun _ => (hpeek mode).2.2⟩
  | peekCommandKeyword mode =>
    have heq : (s.peekCommandKeyword mode).2 = (s.peek mode).2 := by
      unfold peekCommandKeyword
      simp only
      split <;> rfl
    simp only [call, heq]
    exact ⟨(hpeek mode).1, (hpeek mode).2.1, by simp, fun _ => (hpeek mode).2.2⟩
  | takeDiagnostics => exact ⟨hs.setDiagnostics [], h, by simp [call], fun _ => rfl⟩
  | bumpRest =>
    refine ⟨good_bumpRest s, within_bumpRest h, fun next ht => taken_bumpRest h ht, ?_⟩
    simp only [call, bumpRest]
    split <;> simp

/-- Any number of calls keeps the invariant, and the tokens they take are the text between the
positions of the first and the last scanner. -/
lemma calls_spec (hs : s.Good) (h : s.Within t) (cs : List Call) :
    (s.calls cs).2.Good ∧ (s.calls cs).2.Within t ∧
      Covers t s.offset (s.calls cs).2.offset ((s.calls cs).1.flatMap (·.token.fullText)) := by
  induction cs generalizing s with
  | nil =>
    obtain ⟨pre, rfl, hpre⟩ := h
    refine ⟨hs, ⟨pre, rfl, hpre⟩, ?_⟩
    have := covers_append pre [] s.rest
    simpa [calls, hpre, Text.size] using this
  | cons c cs ih =>
    obtain ⟨h1, h2, h3, h4⟩ := call_spec hs h c
    obtain ⟨h5, h6, h7⟩ := ih h1 h2
    refine ⟨h5, h6, ?_⟩
    rcases hc : (s.call c).1 with _ | token
    · simpa [calls, hc, h4 hc] using h7
    · have h8 := (h3 token hc).covers.append h7
      simpa [calls, hc] using h8

/-- The tokens that calls take stand in a row. -/
lemma tiles_calls (hs : s.Good) (h : s.Within t) (cs : List Call) :
    Range.Tiles ⟨s.offset, (s.calls cs).2.offset⟩ ((s.calls cs).1.map (·.range)) := by
  induction cs generalizing s with
  | nil => exact rfl
  | cons c cs ih =>
    obtain ⟨h1, h2, h3, h4⟩ := call_spec hs h c
    have hrest := ih h1 h2
    rcases hc : (s.call c).1 with _ | next
    · simpa [calls, hc, h4 hc] using hrest
    · obtain ⟨-, hrange, ⟨before, after, -, hstart, hstop⟩, -⟩ := h3 next hc
      have htiles : Range.Tiles ⟨s.offset, (s.call c).2.offset⟩ [next.range] := by
        rw [hrange]
        exact ⟨rfl, by simp only; omega, rfl⟩
      have := htiles.append (r := ⟨s.offset, ((s.call c).2.calls cs).2.offset⟩) hrest
      simpa [calls, hc] using this

end

lemma within_of_resume? {config : Config} {t : Text} {offset : Nat} {stack : IndentStack}
    {s : Scanner} (h : resume? config t offset stack = some s) :
    s = atLine config s.rest offset stack ∧ s.Within t := by
  simp only [resume?, Option.bind_eq_bind, Option.bind_eq_some_iff, Prod.exists, Option.pure_def,
    Option.some.injEq] at h
  obtain ⟨before, after, hcut, rfl⟩ := h
  obtain ⟨rfl, hsize⟩ := Text.cut?_eq_some.1 hcut
  exact ⟨rfl, before, rfl, hsize⟩

/-- Whatever is asked of a scanner that goes on somewhere in a text, it stays good. -/
lemma good_calls {config : Config} {t : Text} {offset : Nat} {stack : IndentStack} {start : Scanner}
    (h : resume? config t offset stack = some start) (hstack : stack.Rising) (cs : List Call) :
    (start.calls cs).2.Good := by
  obtain ⟨heq, hwithin⟩ := within_of_resume? h
  have hgood : start.Good := heq ▸ good_atLine config start.rest offset hstack
  exact (calls_spec hgood hwithin cs).1

/-- **Nothing is lost and nothing stands still**: whatever was asked of a scanner before, the ranges
of the tokens taken so far stand in a row from the start to the current position and the tokens are
the text there, and the next token taken starts at that position, ends at the one after the call,
and consumes text, closes an open block or ends the text. -/
theorem tokens_tile_text {config : Config} {t : Text} {offset : Nat} {stack : IndentStack}
    {start : Scanner} (hstart : resume? config t offset stack = some start) (hstack : stack.Rising)
    (cs : List Call) :
    Range.Tiles ⟨offset, (start.calls cs).2.offset⟩ ((start.calls cs).1.map (·.range)) ∧
      Covers t offset (start.calls cs).2.offset
        ((start.calls cs).1.flatMap (·.token.fullText)) ∧
      (∀ mode, Taken t (start.calls cs).2 ((start.calls cs).2.bump mode).1
        ((start.calls cs).2.bump mode).2) ∧
      (∀ next, (start.calls cs).2.bumpRest.1 = some next →
        Taken t (start.calls cs).2 next (start.calls cs).2.bumpRest.2) := by
  obtain ⟨heq, hwithin⟩ := within_of_resume? hstart
  have hgood : start.Good := heq ▸ good_atLine config start.rest offset hstack
  have hoff : start.offset = offset := by rw [heq]; rfl
  obtain ⟨h1, h2, h3⟩ := calls_spec hgood hwithin cs
  have h4 := tiles_calls hgood hwithin cs
  rw [hoff] at h3 h4
  exact ⟨h4, h3, fun mode => (taken_bump h1 h2 mode).1, fun next ht => taken_bumpRest h2 ht⟩

/-- Behind a two-byte character and inside an open block: a blank line and a comment are passed over
in front of a deeper line, which opens a block; the line is taken in a header, both blocks are
closed in front of the next line, and what is left is taken at once. -/
theorem tokens_tile_text_midway :
    let s := atLine {} " \n // c\n   a\nb".toList 3 ⟨[2]⟩
    let cs : List Call := [.peek .statement, .bump .afterOption, .bump .statement, .bump .header,
      .bump .text, .bump .afterOption, .bump .statement, .bumpRest]
    resume? {} "é\n \n // c\n   a\nb".toList 3 ⟨[2]⟩ = some s ∧ (IndentStack.mk [2]).Rising ∧
      (s.calls cs).1.map (·.token.kind) =
        [.blankLine, .indent, .ident, .newline, .dedent, .dedent, .errorToken] ∧
      (s.calls cs).1.map (·.range) =
        [⟨3, 5⟩, ⟨5, 14⟩, ⟨14, 15⟩, ⟨15, 16⟩, ⟨16, 16⟩, ⟨16, 16⟩, ⟨16, 17⟩] ∧
      (s.calls cs).1.map (·.kindRange) =
        [⟨3, 5⟩, ⟨14, 14⟩, ⟨14, 15⟩, ⟨15, 16⟩, ⟨16, 16⟩, ⟨16, 16⟩, ⟨16, 17⟩] ∧
      Range.Tiles ⟨3, (s.calls cs).2.offset⟩ ((s.calls cs).1.map (·.range)) ∧
      Covers "é\n \n // c\n   a\nb".toList 3 (s.calls cs).2.offset " \n // c\n   a\nb".toList := by
  intro s cs
  have hstart : resume? {} "é\n \n // c\n   a\nb".toList 3 ⟨[2]⟩ = some s := by decide +kernel
  have hrising : (IndentStack.mk [2]).Rising := by decide
  obtain ⟨htiles, hcovers, -⟩ := tokens_tile_text hstart hrising cs
  have htext : (s.calls cs).1.flatMap (·.token.fullText) = " \n // c\n   a\nb".toList := by
    decide +kernel
  rw [htext] at hcovers
  exact ⟨hstart, hrising, by decide +kernel, by decide +kernel, by decide +kernel, htiles, hcovers⟩

end Scanner

end DialogueScript
