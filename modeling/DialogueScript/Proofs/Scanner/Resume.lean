import DialogueScript.Proofs.Grammar.Rule
import DialogueScript.Proofs.IndentStack
import DialogueScript.Proofs.Scanner.Calls
import DialogueScript.Proofs.Scanner.LineStart

/-!
Going on at the start of a line. A scanner that has taken a line break carries nothing into the next
line but its position and the open blocks: one that starts there, in the same text or in what is
left of it, answers every further question in the same way.
-/

namespace DialogueScript

namespace Scanner

/-! ### What a reader sees -/

/-- What a reader sees of a call: the token that is looked at or taken, with its places without and
with trivia, the keyword of a command, the position and the open blocks behind the call, and the
problems that it reported. -/
structure Answer where
  token : Option Token
  range : Option Range
  fullRange : Option Range
  keyword : Option Kind
  offset : Nat
  stack : IndentStack
  found : List Diagnostic
deriving DecidableEq, Repr

/-- An answer about a part of a text that starts at `base`. -/
def Answer.moved (base : Nat) (a : Answer) : Answer :=
  { a with
    range := a.range.map (·.moved base)
    fullRange := a.fullRange.map (·.moved base)
    offset := base + a.offset
    found := a.found.map (·.moved base) }

/-- The token and the keyword that a call shows. -/
def shown (s : Scanner) : Call → Option PlacedToken × Option Kind
  | .bump mode => (some (s.bump mode).1, none)
  | .peek mode => (some (s.peek mode).1, none)
  | .peekCommandKeyword mode => (none, (s.peekCommandKeyword mode).1)
  | .takeDiagnostics => (none, none)
  | .bumpRest => (s.bumpRest.1, none)

def answer (s : Scanner) (c : Call) : Answer where
  token := (s.shown c).1.map (·.token)
  range := (s.shown c).1.map (·.kindRange)
  fullRange := (s.shown c).1.map (·.range)
  keyword := (s.shown c).2
  offset := (s.call c).2.offset
  stack := (s.call c).2.stack
  found := (s.call c).2.diagnostics.drop s.diagnostics.length

/-- The answers to a sequence of calls. -/
def answers (s : Scanner) : List Call → List Answer
  | [] => []
  | c :: cs => s.answer c :: (s.call c).2.answers cs

lemma Answer.moved_zero (a : Answer) : a.moved 0 = a := by
  have hrange : (Range.moved 0) = id := by
    funext r
    simp [Range.moved]
  have hfound : (Diagnostic.moved 0) = id := by
    funext d
    simp [Diagnostic.moved]
  simp [Answer.moved, hrange, hfound]

/-! ### What a call keeps -/

variable {s s' : Scanner}

lemma Takes.narrow {mode : Mode} {l : Lexed} (h : s.Sane) (ht : Takes s mode l s')
    (hn : s.stack.Narrow) : s'.stack.Narrow := by
  cases ht with
  | dedent p hline hd => exact hn.pop
  | blank => exact hn
  | indent p w hline hd he =>
    refine hn.push ?_
    rw [((h.plan p hline).deeper w he).1]
    exact IndentStack.measure_le _ _
  | mismatch | content => exact hn

lemma config_after (hs : s.Sane) (mode : Mode) : (s.after mode).config = s.config := by
  rw [(hs.takes mode).config_eq, settle_config]

lemma narrow_after (hs : s.Sane) (hn : s.stack.Narrow) (mode : Mode) :
    (s.after mode).stack.Narrow :=
  (hs.takes mode).narrow (hs.settle mode) (by rwa [settle_stack])

/-- Taking a token adds its error to what was reported before. -/
lemma diagnostics_after (hs : s.Sane) (mode : Mode) : (s.after mode).diagnostics =
    s.diagnostics ++ ParserState.errorsOf (s.ahead mode) s.offset := by
  rw [(hs.takes mode).diagnostics_eq, report, ParserState.errorsOf, (hs.takes mode).kindRange_eq]
  cases (s.ahead mode).error <;> simp

/-- No call changes the configuration or opens a block that is too wide. -/
lemma call_keeps (hs : s.Good) (hn : s.stack.Narrow) (c : Call) :
    (s.call c).2.config = s.config ∧ (s.call c).2.stack.Narrow := by
  cases c with
  | bump mode =>
    simp only [call, hs.bump_eq]
    exact ⟨config_after hs.toSane mode, narrow_after hs.toSane hn mode⟩
  | peek mode =>
    rw [call, hs.peek_eq]
    simpa [looking] using hn
  | peekCommandKeyword mode =>
    rw [call, hs.peekCommandKeyword_eq]
    simpa [looking] using hn
  | takeDiagnostics => exact ⟨rfl, hn⟩
  | bumpRest =>
    simp only [call, bumpRest]
    split <;> exact ⟨rfl, IndentStack.narrow_empty⟩

lemma calls_keep {t : Text} (hs : s.Good) (h : s.Within t) (hn : s.stack.Narrow) (cs : List Call) :
    (s.calls cs).2.config = s.config ∧ (s.calls cs).2.stack.Narrow := by
  induction cs generalizing s with
  | nil => exact ⟨rfl, hn⟩
  | cons c cs ih =>
    obtain ⟨hgood, hwithin, -⟩ := call_spec hs h c
    obtain ⟨hconfig, hnarrow⟩ := call_keeps hs hn c
    obtain ⟨h1, h2⟩ := ih hgood hwithin hnarrow
    exact ⟨h1.trans hconfig, h2⟩

/-! ### Two scanners in front of the same text -/

section
variable {base : Nat}

/-- What a call shows is placed where the scanner stands. -/
lemma shown_placed (hs : s.Good) (c : Call) {next : PlacedToken} (h : (s.shown c).1 = some next) :
    next.token.Proper ∧ next = next.token.placed s.offset := by
  have hahead (mode : Mode) : (s.ahead mode).token.Proper ∧
      (s.ahead mode).toPlacedToken = (s.ahead mode).token.placed s.offset := by
    have ht := hs.takes mode
    exact ⟨ht.proper, by rw [ht.placed_eq, Token.token_placed, settle_offset]⟩
  cases c with
  | bump mode =>
    obtain rfl : (s.ahead mode).toPlacedToken = next := by simpa [shown, hs.bump_eq] using h
    exact hahead mode
  | peek mode =>
    obtain rfl : (s.ahead mode).toPlacedToken = next := by simpa [shown, hs.peek_eq] using h
    exact hahead mode
  | peekCommandKeyword mode => simp [shown] at h
  | takeDiagnostics => simp [shown] at h
  | bumpRest =>
    by_cases hnil : s.rest = []
    · simp [shown, bumpRest_of_nil hnil] at h
    · rw [shown, bumpRest_of_ne_nil hnil] at h
      obtain rfl := Option.some.inj h
      exact ⟨Token.proper_bare _ _, rfl⟩

/-- So its places are known from the token. -/
lemma shown_ranges (hs : s.Good) (c : Call) :
    (s.shown c).1.map (·.kindRange) = ((s.shown c).1.map (·.token)).map (·.range s.offset) ∧
      (s.shown c).1.map (·.range) = ((s.shown c).1.map (·.token)).map (·.fullRange s.offset) := by
  rcases hc : (s.shown c).1 with _ | next
  · exact ⟨rfl, rfl⟩
  · obtain ⟨hproper, hplaced⟩ := shown_placed hs c hc
    have hrange := hproper.range_placed s.offset
    rw [← hplaced] at hrange
    exact ⟨congrArg some (congrArg PlacedToken.kindRange hplaced), congrArg some hrange⟩

/-- Two scanners that read the same text from the same place, which they count from `base` and from
zero. -/
abbrev SameText (base : Nat) : Scanner → Scanner → Prop := Alike [] [] base 0

namespace SameText

lemma rest_eq (h : SameText base s s') : s.rest = s'.rest := by
  obtain ⟨x, h1, h2⟩ := h.rest
  rw [h1, h2]

lemma offset_eq (h : SameText base s s') : s.offset = base + s'.offset := by
  obtain ⟨n, h1, h2⟩ := h.offset
  omega

/-- What is shown of the text is the same for both, apart from the places. -/
lemma shown_same (h : SameText base s s') (hs : s.Good) (hs' : s'.Good) (c : Call) :
    (s.shown c).1.map (·.token) = (s'.shown c).1.map (·.token) ∧
      (s.shown c).2 = (s'.shown c).2 := by
  have hv : ∀ n, Hidden [] [] n := fun _ => .inl ⟨rfl, rfl⟩
  cases c with
  | bump mode => simp [shown, hs.bump_eq, hs'.bump_eq, (h.ahead_same hs hs' (hv _)).token]
  | peek mode => simp [shown, hs.peek_eq, hs'.peek_eq, (h.ahead_same hs hs' (hv _)).token]
  | peekCommandKeyword mode =>
    simp [shown, hs.peekCommandKeyword_eq, hs'.peekCommandKeyword_eq,
      h.commandAhead_eq hs hs' (hv _)]
  | takeDiagnostics => exact ⟨rfl, rfl⟩
  | bumpRest =>
    have hrest := h.rest_eq
    by_cases hnil : s'.rest = []
    · simp [shown, bumpRest_of_nil (hrest.trans hnil), bumpRest_of_nil hnil]
    · have hnil' : s.rest ≠ [] := hrest ▸ hnil
      simp [shown, bumpRest_of_ne_nil hnil, bumpRest_of_ne_nil hnil', hrest]

/-- A call leads to scanners that again read the same text from the same place. -/
lemma call (h : SameText base s s') (hs : s.Good) (hs' : s'.Good) (c : Call) :
    SameText base (s.call c).2 (s'.call c).2 := by
  have hv : ∀ n, Hidden [] [] n := fun _ => .inl ⟨rfl, rfl⟩
  cases c with
  | bump mode =>
    simp only [Scanner.call, hs.bump_eq, hs'.bump_eq]
    exact h.after hs hs' (hv _)
  | peek mode =>
    simp only [Scanner.call, hs.peek_eq, hs'.peek_eq]
    exact h.looking (hv _)
  | peekCommandKeyword mode =>
    simp only [Scanner.call, hs.peekCommandKeyword_eq, hs'.peekCommandKeyword_eq]
    exact h.looking (hv _)
  | takeDiagnostics => exact ⟨h.config, h.rest, h.offset, h.stack, h.lineStart, h.line⟩
  | bumpRest =>
    obtain ⟨n, h1, h2⟩ := h.offset
    have hrest := h.rest_eq
    by_cases hnil : s'.rest = []
    · rw [Scanner.call, Scanner.call, bumpRest_of_nil (hrest.trans hnil), bumpRest_of_nil hnil]
      exact ⟨h.config, h.rest, h.offset, rfl, rfl, .none⟩
    · rw [Scanner.call, Scanner.call, bumpRest_of_ne_nil hnil, bumpRest_of_ne_nil (hrest ▸ hnil)]
      refine ⟨h.config, ⟨[], rfl, rfl⟩, ⟨n + Text.size s'.rest, ?_, ?_⟩, rfl, rfl, .none⟩
      · simp only [h1, hrest, Nat.add_assoc]
      · simp only [h2, Nat.add_assoc]

/-- What a call reports is the same for both, up to the place. -/
lemma found_eq (h : SameText base s s') (hs : s.Good) (hs' : s'.Good) (c : Call) :
    (s.call c).2.diagnostics.drop s.diagnostics.length =
      ((s'.call c).2.diagnostics.drop s'.diagnostics.length).map (·.moved base) := by
  cases c with
  | bump mode =>
    simp only [Scanner.call, hs.bump_eq, hs'.bump_eq, diagnostics_after hs.toSane,
      diagnostics_after hs'.toSane, List.drop_left, h.offset_eq, ParserState.errorsOf_add]
    have hsame : (s.ahead mode).Same (s'.ahead mode) := h.ahead_same hs hs' (.inl ⟨rfl, rfl⟩)
    rw [ParserState.errorsOf, ParserState.errorsOf, hsame.error, hsame.token]
  | peek mode => simp [Scanner.call, hs.peek_eq, hs'.peek_eq, looking]
  | peekCommandKeyword mode =>
    simp [Scanner.call, hs.peekCommandKeyword_eq, hs'.peekCommandKeyword_eq, looking]
  | takeDiagnostics => simp [Scanner.call, Scanner.takeDiagnostics]
  | bumpRest =>
    simp only [Scanner.call, bumpRest]
    split <;> split <;> simp [skip]

lemma answer_eq (h : SameText base s s') (hs : s.Good) (hs' : s'.Good) (c : Call) :
    s.answer c = (s'.answer c).moved base := by
  have hcall := h.call hs hs' c
  obtain ⟨htoken, hkeyword⟩ := h.shown_same hs hs' c
  obtain ⟨h1, h2⟩ := shown_ranges hs c
  obtain ⟨h3, h4⟩ := shown_ranges hs' c
  simp only [answer, Answer.moved, Answer.mk.injEq, h1, h2, h3, h4, htoken, hkeyword, h.offset_eq,
    hcall.offset_eq, hcall.stack, h.found_eq hs hs' c, Option.map_map, true_and, and_true]
  refine ⟨congrArg (Option.map · _) ?_, congrArg (Option.map · _) ?_⟩ <;> funext token
  · exact ParserState.range_add token.token base s'.offset
  · exact Range.ofSize_add base s'.offset token.token.size

/-- Two scanners in front of the same text answer all calls in the same way, up to the place. -/
lemma answers_eq {t t' : Text} (h : SameText base s s') (hs : s.Good) (hs' : s'.Good)
    (hw : s.Within t) (hw' : s'.Within t') (cs : List Call) :
    s.answers cs = (s'.answers cs).map (·.moved base) := by
  induction cs generalizing s s' with
  | nil => rfl
  | cons c cs ih =>
    obtain ⟨h1, h2, -⟩ := call_spec hs hw c
    obtain ⟨h3, h4, -⟩ := call_spec hs' hw' c
    rw [answers, answers, List.map_cons, h.answer_eq hs hs' c,
      ih (h.call hs hs' c) h1 h3 h2 h4]

end SameText

end

/-! ### Going on behind a line break -/

/-- A scanner that starts a line, with nothing looked at, is a new one apart from what it
reported. -/
lemma sameText_atLine (hs : s.isFresh = true) (n : Nat) (base : Nat) (hbase : s.offset = base + n) :
    SameText base s (atLine s.config s.rest n s.stack) := by
  simp only [isFresh, Bool.and_eq_true, Option.isNone_iff_eq_none] at hs
  refine ⟨rfl, ⟨s.rest, by simp, by simp [atLine]⟩, ⟨n, hbase, (Nat.zero_add n).symm⟩, rfl,
    hs.1.1, ?_⟩
  rw [hs.1.2]
  exact .none

/-- **Going on at the start of a line is the same as reading on.** Whatever was asked of a scanner
before it took a line break, and whatever is asked afterwards: the open blocks can be written and
read back, and a scanner that goes on there with what was read back, and one that reads only the
rest of the text with the open blocks, give the same answers as the scanner that read on; the last
one counts from the start of its own text. -/
theorem answers_behind_newline {config : Config} {t : Text} {offset : Nat} {stack : IndentStack}
    {start s : Scanner} (hstart : resume? config t offset stack = some start)
    (hrising : stack.Rising) (hnarrow : stack.Narrow) (past : List Call) {mode : Mode}
    {next : PlacedToken} (htaken : (start.calls past).2.bump mode = (next, s))
    (hk : next.token.kind = .newline) :
    ∃ saved resumed before after alone,
      IndentStack.decode s.stack.encode = .ok saved ∧
      resume? config t s.offset saved = some resumed ∧
      Text.cut? t s.offset = some (before, after) ∧
      resume? config after 0 s.stack = some alone ∧
      ∀ future, resumed.answers future = s.answers future ∧
        (alone.answers future).map (·.moved s.offset) = s.answers future := by
  obtain ⟨heq, hwithin⟩ := within_of_resume? hstart
  have hgood : start.Good := heq ▸ good_atLine config start.rest offset hrising
  have hstack : start.stack = stack := by rw [heq]; rfl
  have hconfig : start.config = config := by rw [heq]; rfl
  obtain ⟨hconfig', hnarrow⟩ := calls_keep hgood hwithin (by rwa [hstack]) past
  obtain ⟨hgood, hwithin, -⟩ := calls_spec hgood hwithin past
  generalize (start.calls past).2 = r at hgood hwithin hconfig' hnarrow htaken
  have hplace : s.Within t := by
    have := (taken_bump hgood hwithin mode).2
    rwa [htaken] at this
  rw [hgood.bump_eq, Prod.mk.injEq] at htaken
  obtain ⟨rfl, rfl⟩ := htaken
  have hfresh := isFresh_of_newline hgood.toSane hk
  have hg := hgood.after mode
  have hsaved := IndentStack.decode_encode hg.rising (narrow_after hgood.toSane hnarrow mode)
  have hsame : (r.after mode).config = config := by
    rw [config_after hgood.toSane, hconfig', hconfig]
  generalize r.after mode = s at hplace hfresh hsaved hsame hg
  subst hsame
  obtain ⟨before, rfl, hbefore⟩ := hplace
  have hcut : Text.cut? (before ++ s.rest) s.offset = some (before, s.rest) :=
    Text.cut?_eq_some.2 ⟨rfl, hbefore⟩
  refine ⟨s.stack, atLine s.config s.rest s.offset s.stack, before, s.rest,
    atLine s.config s.rest 0 s.stack, hsaved, by simp [resume?, hcut], hcut,
    by simp [resume?, Text.cut?], fun future => ?_⟩
  have hresumed := (sameText_atLine hfresh s.offset 0 (Nat.zero_add _).symm).answers_eq hg
    (good_atLine s.config s.rest s.offset hg.rising) ⟨before, rfl, hbefore⟩
      ⟨before, rfl, hbefore⟩ future
  have halone := (sameText_atLine hfresh 0 s.offset rfl).answers_eq hg
    (good_atLine s.config s.rest 0 hg.rising) ⟨before, rfl, hbefore⟩ ⟨[], rfl, rfl⟩ future
  refine ⟨?_, halone.symm⟩
  simpa [Answer.moved_zero] using hresumed.symm

/-- Behind a two-byte character and inside an open block, a line opens a second one. -/
theorem answers_behind_newline_midway :
    resume? {} "é\n    a\n  b".toList 3 ⟨[2]⟩ = some (atLine {} "    a\n  b".toList 3 ⟨[2]⟩) ∧
      (IndentStack.mk [2]).Rising ∧ (IndentStack.mk [2]).Narrow ∧
      ∃ next s, ((atLine {} "    a\n  b".toList 3 ⟨[2]⟩).calls
          [.peek .header, .bump .statement, .bump .text]).2.bump .text = (next, s) ∧
        next.token.kind = .newline ∧ s.stack = ⟨[2, 4]⟩ ∧
        ∃ resumed alone, resume? {} "é\n    a\n  b".toList 9 ⟨[2, 4]⟩ = some resumed ∧
          resume? {} "  b".toList 0 ⟨[2, 4]⟩ = some alone ∧
          ∀ future, resumed.answers future = s.answers future ∧
            (alone.answers future).map (·.moved 9) = s.answers future := by
  have hstart : resume? {} "é\n    a\n  b".toList 3 ⟨[2]⟩ =
      some (atLine {} "    a\n  b".toList 3 ⟨[2]⟩) := by decide +kernel
  have hrising : (IndentStack.mk [2]).Rising := by decide
  have hnarrow : (IndentStack.mk [2]).Narrow := by simp [IndentStack.Narrow, IndentStack.maxWidth]
  obtain ⟨s, htaken, hoffset, hstack⟩ : ∃ s, ((atLine {} "    a\n  b".toList 3 ⟨[2]⟩).calls
      [.peek .header, .bump .statement, .bump .text]).2.bump .text =
        (⟨{ kind := .newline, fullText := ['\n'] }, ⟨8, 9⟩⟩, s) ∧ s.offset = 9 ∧
          s.stack = ⟨[2, 4]⟩ :=
    ⟨atLine {} "  b".toList 9 ⟨[2, 4]⟩, by decide +kernel, rfl, rfl⟩
  obtain ⟨saved, resumed, before, after, alone, h1, h2, h3, h4, h5⟩ :=
    answers_behind_newline hstart hrising hnarrow _ htaken rfl
  rw [hstack] at h1 h4
  rw [hoffset] at h2 h3 h5
  obtain rfl : saved = ⟨[2, 4]⟩ := by
    have hdecode : IndentStack.decode (IndentStack.mk [2, 4]).encode = .ok ⟨[2, 4]⟩ := by
      decide +kernel
    exact Except.ok.inj (h1.symm.trans hdecode)
  obtain rfl : after = "  b".toList := by
    have hcut : Text.cut? "é\n    a\n  b".toList 9 = some ("é\n    a\n".toList, "  b".toList) := by
      decide +kernel
    exact congrArg Prod.snd (Option.some.inj (h3.symm.trans hcut))
  exact ⟨hstart, hrising, hnarrow, _, s, htaken, rfl, hstack, resumed, alone, h2, h4, h5⟩

end Scanner

end DialogueScript
