import DialogueScript.Proofs.Scanner.Layout
import DialogueScript.Scanner.Basic
import Mathlib.Data.List.Induction

/-!
What a scanner can hand out next, and the invariant that every call keeps: the open blocks grow in
width, the plan of the current line still fits the text, and a token that was looked at is the one
that would be read again.
-/

namespace DialogueScript

namespace IndentStack

/-- Each width is larger than the one before it, and the first is not zero. -/
def Rising (s : IndentStack) : Prop := (0 :: s.widths).Pairwise (· < ·)

instance : DecidablePred Rising := fun _ => inferInstanceAs (Decidable (List.Pairwise _ _))

lemma rising_empty : empty.Rising := by simp [Rising, empty]

lemma Rising.pop {s : IndentStack} (h : s.Rising) : s.pop.Rising :=
  h.sublist ((List.dropLast_sublist _).cons_cons 0)

/-- The innermost block is the widest. -/
lemma Rising.le_top {s : IndentStack} (h : s.Rising) {w : Nat} (hw : w ∈ s.widths) : w ≤ s.top := by
  unfold Rising at h
  unfold top
  generalize s.widths = ws at h hw
  induction ws using List.reverseRecOn with
  | nil => simp at hw
  | append_singleton ws x _ =>
    rw [List.getLastD_concat]
    rw [← List.cons_append, List.pairwise_append] at h
    rcases List.mem_append.1 hw with hw | hw
    · exact (h.2.2 w (List.mem_cons_of_mem 0 hw) x List.mem_cons_self).le
    · exact (List.mem_singleton.1 hw).le

lemma Rising.push {s : IndentStack} (h : s.Rising) {w : Nat} (hw : s.top < w) :
    (s.push w).Rising := by
  have hle : ∀ v ∈ 0 :: s.widths, v ≤ s.top := by
    intro v hv
    rcases List.mem_cons.1 hv with rfl | hv
    · exact Nat.zero_le _
    · exact h.le_top hv
  unfold Rising at h ⊢
  rw [IndentStack.push, ← List.cons_append, List.pairwise_append]
  refine ⟨h, by simp, fun a ha b hb => ?_⟩
  obtain rfl : b = w := by simpa using hb
  exact lt_of_le_of_lt (hle a ha) hw

lemma measure_nil (tabWidth : Nat) : measure tabWidth [] = 0 := rfl

end IndentStack

namespace Token

/-- The trivia of a token is a part of its text on both sides. -/
def Proper (t : Token) : Prop :=
  ∃ lead own trail : Text, t.fullText = lead ++ own ++ trail ∧
    t.leading.total = Text.size lead ∧ t.trailing.total = Text.size trail

lemma proper_ofParts (leading : List Trivia) (kind : Kind) (own : Text) (trailing : List Trivia) :
    (ofParts leading kind own trailing).Proper :=
  ⟨_, own, _, rfl, Trivia.total_sizes leading, Trivia.total_sizes trailing⟩

lemma proper_bare (kind : Kind) (text : Text) : Proper { kind, fullText := text } :=
  ⟨[], text, [], by simp, rfl, rfl⟩

/-- The range of a token lies between its trivia. -/
lemma Proper.range {t : Token} (h : t.Proper) (position : Nat) :
    (t.range position).start = position + t.leading.total ∧
      (t.range position).stop + t.trailing.total = position + t.size ∧
      (t.range position).start ≤ (t.range position).stop := by
  obtain ⟨lead, own, trail, ht, hl, hr⟩ := h
  have hs : t.size = Text.size lead + Text.size own + Text.size trail := by
    rw [size, ht, Text.size_append, Text.size_append]
  refine ⟨rfl, ?_, ?_⟩ <;> simp only [Token.range, Range.ofSize] <;> omega

/-- No proper token has more trivia than text. -/
lemma Proper.fits {t : Token} (h : t.Proper) : t.leading.total + t.trailing.total ≤ t.size := by
  obtain ⟨hstart, hstop, hle⟩ := h.range 0
  omega

/-- A token where it stands, if it starts with its trivia at a position. -/
def placed (t : Token) (position : Nat) : PlacedToken := ⟨t, t.range position⟩

@[simp] lemma token_placed (t : Token) (position : Nat) : (t.placed position).token = t := rfl

@[simp] lemma kindRange_placed (t : Token) (position : Nat) :
    (t.placed position).kindRange = t.range position := rfl

/-- **The range that is computed from the trivia and the place of a token's own text** is the one
that the token has in a tree. -/
lemma Proper.range_placed {t : Token} (h : t.Proper) (position : Nat) :
    (t.placed position).range = t.fullRange position := by
  obtain ⟨hstart, hstop, -⟩ := h.range position
  rw [PlacedToken.range, token_placed, kindRange_placed, hstart, hstop, Nat.add_sub_cancel]
  rfl

end Token

lemma LinePlan.blankAt?_eq_some {p : LinePlan} {position : Nat} {r : Range} :
    p.blankAt? position = some r ↔ p.blank = some r ∧ r.start = position := by
  simp [blankAt?, Option.filter_eq_some_iff]

lemma Mode.isIndentSensitive_statement : isIndentSensitive .statement = true := rfl

lemma Mode.isIndentSensitive_header : isIndentSensitive .header = false := rfl

/-- Looking in the first mode settles nothing that taking a token in the second would not. -/
def Mode.Before (first second : Mode) : Prop :=
  first.isIndentSensitive = false ∨ second.isIndentSensitive = true

instance (first second : Mode) : Decidable (first.Before second) :=
  inferInstanceAs (Decidable (_ ∨ _))

lemma Mode.Before.refl (mode : Mode) : mode.Before mode := by
  cases h : mode.isIndentSensitive
  · exact .inl h
  · exact .inr h

namespace Scanner

/-! ### Settling -/

section
variable (s : Scanner) (mode : Mode)

lemma settle_of_insensitive {mode : Mode} (h : mode.isIndentSensitive = false) :
    s.settle mode = s := by
  simp [settle, h]

/-- Settling changes nothing but the start of the line and its plan. -/
lemma settle_of_sensitive {mode : Mode} (h : mode.isIndentSensitive = true) : s.settle mode =
    { s with
      lineStart := s.lineStart || s.atUnterminatedEnd
      line := if (s.lineStart || s.atUnterminatedEnd) && s.line.isNone then
        some (planLine s.config s.stack s.offset s.rest) else s.line } := by
  unfold settle
  rw [if_pos h]
  obtain ⟨config, rest, offset, stack, lineStart, line, peeked, diagnostics⟩ := s
  simp only
  cases hu : atUnterminatedEnd
    ⟨config, rest, offset, stack, lineStart, line, peeked, diagnostics⟩ <;>
    cases lineStart <;> cases line <;> simp

lemma settle_eq : s.settle mode =
    { s with lineStart := (s.settle mode).lineStart, line := (s.settle mode).line } := by
  cases h : mode.isIndentSensitive
  · rw [settle_of_insensitive s h]
  · rw [settle_of_sensitive s h]

@[simp] lemma settle_config : (s.settle mode).config = s.config := by rw [settle_eq]
@[simp] lemma settle_rest : (s.settle mode).rest = s.rest := by rw [settle_eq]
@[simp] lemma settle_offset : (s.settle mode).offset = s.offset := by rw [settle_eq]
@[simp] lemma settle_stack : (s.settle mode).stack = s.stack := by rw [settle_eq]
@[simp] lemma settle_peeked : (s.settle mode).peeked = s.peeked := by rw [settle_eq]
@[simp] lemma settle_diagnostics : (s.settle mode).diagnostics = s.diagnostics := by rw [settle_eq]

lemma settle_settle : (s.settle mode).settle mode = s.settle mode := by
  cases h : mode.isIndentSensitive
  · rw [settle_of_insensitive _ h, settle_of_insensitive _ h]
  · rw [settle_of_sensitive _ h, settle_of_sensitive s h]
    obtain ⟨config, rest, offset, stack, lineStart, line, peeked, diagnostics⟩ := s
    simp only [atUnterminatedEnd, mk.injEq, true_and, and_true]
    rcases Bool.eq_false_or_eq_true (!stack.isEmpty && (Text.dropBlanks rest).isEmpty)
      with hu | hu <;> cases lineStart <;> cases line <;> simp [hu]

/-- All modes that track indentation settle alike. -/
lemma settle_of_before {first : Mode} (h : first.Before mode) :
    (s.settle first).settle mode = s.settle mode := by
  cases hfirst : first.isIndentSensitive
  · rw [settle_of_insensitive s hfirst]
  · have hmode : mode.isIndentSensitive = true := by simpa [Mode.Before, hfirst] using h
    have hsame : s.settle first = s.settle mode := by simp only [settle, hfirst, hmode]
    rw [hsame, settle_settle]

end

/-! ### Places in the text ahead -/

section
variable {s : Scanner}

lemma textFrom_of_append {a b : Text} (h : s.rest = a ++ b) :
    s.textFrom (s.offset + Text.size a) = b := by
  rw [textFrom, Nat.add_sub_cancel_left, h, Text.cut?_append]
  rfl

lemma textIn_of_append {a b : Text} (h : s.rest = a ++ b) :
    s.textIn (.ofSize s.offset (Text.size a)) = a := by
  have := Text.slice?_append [] a b
  simp only [Range.ofSize, Text.size, Nat.zero_add, List.nil_append] at this
  simp only [textIn, Range.ofSize, Nat.sub_self, Nat.add_sub_cancel_left, h, this]
  rfl

@[simp] lemma kind_place (leading : List Trivia) (kind : Kind) (kindRange : Range)
    (trailing : List Trivia) : (s.place leading kind kindRange trailing).token.kind = kind := rfl

/-- A token whose parts stand next is placed where it starts. -/
lemma place_eq (leading : List Trivia) (kind : Kind) (own : Text) (trailing : List Trivia)
    {u : Text} (h : s.rest = Trivia.concat leading ++ own ++ Trivia.concat trailing ++ u) :
    s.place leading kind (.ofSize (s.offset + Text.size (Trivia.concat leading)) (Text.size own))
      trailing = (Token.ofParts leading kind own trailing).placed s.offset := by
  have hrange := (Token.proper_ofParts leading kind own trailing).range_placed s.offset
  rw [PlacedToken.range, Token.token_placed, Token.kindRange_placed, Token.range_ofParts,
    Token.fullRange] at hrange
  have htext := textIn_of_append h
  simp only [place, PlacedToken.range, Token.placed, Token.range_ofParts]
  simp only [Token.ofParts, Token.size] at hrange ⊢
  rw [hrange, htext]

end

/-! ### The invariant -/

/-- The plan of a line asks for what the text and the open blocks allow. -/
structure PlanFits (s : Scanner) (p : LinePlan) : Prop where
  lineStart : s.lineStart = true
  /-- The content starts behind the trivia that the next token gets. -/
  content : p.content = s.offset + Text.size (Trivia.concat (lineTrivia s.rest))
  dedents : p.dedents ≤ s.stack.depth
  /-- A blank line that has not been passed is the one that this trivia begins with. -/
  blank : ∀ r, p.blank = some r → r.start ≤ s.offset ∧ (r.start = s.offset →
    ∃ b, leadingBlankLine? (lineTrivia s.rest) = some b ∧ r = .ofSize s.offset (Text.size b))
  deeper : ∀ w, p.entry = .deeper w →
    w = IndentStack.measure s.config.tabWidth (indentationOf (lineTrivia s.rest)) ∧
      (s.stack.widths.take (s.stack.depth - p.dedents)).getLastD 0 < w
  mismatch : p.entry = .mismatch → contentOf s.rest ≠ []

lemma PlanFits.blankAt? {s : Scanner} {p : LinePlan} (h : s.PlanFits p) {r : Range}
    (hr : p.blankAt? s.offset = some r) :
    ∃ b, leadingBlankLine? (lineTrivia s.rest) = some b ∧ r = .ofSize s.offset (Text.size b) := by
  obtain ⟨hblank, hat⟩ := LinePlan.blankAt?_eq_some.1 hr
  exact (h.blank r hblank).2 hat

/-- The open blocks and the plan of the line are in order. -/
structure Sane (s : Scanner) : Prop where
  rising : s.stack.Rising
  plan : ∀ p, s.line = some p → s.PlanFits p

/-- A token that was looked at is the one that would be read again. -/
structure Good (s : Scanner) : Prop extends s.Sane where
  peeked : ∀ l, s.peeked = some l → s.settle l.mode = s ∧ l = s.scan l.mode

lemma Sane.good {s : Scanner} (h : s.Sane) (hp : s.peeked = none) : s.Good :=
  ⟨h, by simp [hp]⟩

lemma good_atLine (config : Config) (rest : Text) (offset : Nat) {stack : IndentStack}
    (h : stack.Rising) : (atLine config rest offset stack).Good :=
  ⟨⟨h, by simp [atLine]⟩, by simp [atLine]⟩

lemma planFits_planLine {s : Scanner} (h : s.lineStart = true) :
    s.PlanFits (planLine s.config s.stack s.offset s.rest) := by
  have hkept : s.stack.kept (IndentStack.measure s.config.tabWidth
      (indentationOf (lineTrivia s.rest))) <+: s.stack.widths := List.takeWhile_prefix _
  rw [planLine_eq]
  refine ⟨h, rfl, ?_, ?_, ?_, ?_⟩ <;> simp only [lineEntry]
  · split_ifs <;> simp [IndentStack.depth]
  · simp only [Option.map_eq_some_iff]
    rintro _ ⟨b, hb, rfl⟩
    exact ⟨le_rfl, fun _ => ⟨b, hb, rfl⟩⟩
  · intro w
    split_ifs with h1 h2 h3
    · simp
    · simp
    · simp only [Entry.deeper.injEq]
      rintro rfl
      refine ⟨rfl, ?_⟩
      have hd : s.stack.depth - (s.stack.depth - (s.stack.kept (IndentStack.measure
          s.config.tabWidth (indentationOf (lineTrivia s.rest)))).length) =
          (s.stack.kept (IndentStack.measure s.config.tabWidth
            (indentationOf (lineTrivia s.rest)))).length := by
        have := hkept.length_le
        unfold IndentStack.depth
        omega
      rw [hd, ← List.prefix_iff_eq_take.1 hkept]
      exact h3
    · simp
  · intro hm
    split_ifs at hm with h1 h2 h3
    intro hnil
    rw [hnil] at h1
    simp [closesBlocks] at h1

lemma Sane.settle {s : Scanner} (h : s.Sane) (mode : Mode) : (s.settle mode).Sane := by
  refine ⟨by simpa using h.rising, ?_⟩
  cases hm : mode.isIndentSensitive
  · rw [settle_of_insensitive s hm]
    exact h.plan
  · intro p hline
    rw [settle_of_sensitive s hm] at hline ⊢
    simp only at hline
    split at hline
    · next hs =>
      simp only [Bool.and_eq_true] at hs
      simp only [Option.some.injEq] at hline
      subst hline
      exact planFits_planLine hs.1
    · obtain ⟨h1, h2, h3, h4, h5, h6⟩ := h.plan p hline
      exact ⟨by simp [h1], h2, h3, h4, h5, h6⟩

end Scanner

end DialogueScript
