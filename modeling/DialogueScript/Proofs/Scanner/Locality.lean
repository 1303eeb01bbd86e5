import DialogueScript.Proofs.Scanner.Bump
import DialogueScript.Proofs.Text.Position

/-!
How far a scanner looks ahead: to the end of the line on which the next token stands. Two scanners
in the same state whose texts differ only behind that line see the same tokens.
-/

namespace DialogueScript

/-! ### Plans and tokens at other places -/

/-- Plans that ask for the same, of which one counts from `b` and the other from `b'`. Where the
content starts is left out: the text says it. -/
structure LinePlan.Alike (b b' : Nat) (p p' : LinePlan) : Prop where
  dedents : p.dedents = p'.dedents
  entry : p.entry = p'.entry
  blank : ∃ r : Option Range, p.blank = r.map (·.moved b) ∧ p'.blank = r.map (·.moved b')

namespace LinePlan.Alike

variable {b b' n : Nat} {p p' : LinePlan}

lemma symm (h : p.Alike b b' p') : p'.Alike b' b p := by
  obtain ⟨r, h1, h2⟩ := h.blank
  exact ⟨h.dedents.symm, h.entry.symm, r, h2, h1⟩

/-- Alike plans know the same blank line. -/
lemma blankAt?_eq_some (h : p.Alike b b' p') {size : Nat}
    (hb : p.blankAt? (b + n) = some (.ofSize (b + n) size)) :
    p'.blankAt? (b' + n) = some (.ofSize (b' + n) size) := by
  obtain ⟨r, h1, h2⟩ := h.blank
  obtain ⟨hb, -⟩ := LinePlan.blankAt?_eq_some.1 hb
  obtain ⟨⟨start, stop⟩, rfl, hr⟩ := Option.map_eq_some_iff.1 (h1.symm.trans hb)
  simp only [Range.moved, Range.ofSize, Range.mk.injEq] at hr
  refine LinePlan.blankAt?_eq_some.2 ⟨?_, rfl⟩
  simp only [h2, Option.map_some, Range.moved, Range.ofSize, Option.some.injEq, Range.mk.injEq]
  omega

lemma blankAt?_eq_none (h : p.Alike b b' p') (hb : p.blankAt? (b + n) = none) :
    p'.blankAt? (b' + n) = none := by
  obtain ⟨r, h1, h2⟩ := h.blank
  rcases r with _ | r
  · simp [blankAt?, h2]
  · simpa [blankAt?, h1, h2, Range.moved] using hb

end LinePlan.Alike

/-- The plans for one line, counted from two bases. -/
lemma planLine_alike (config : Config) (stack : IndentStack) (b b' n : Nat) (t : Text) :
    (planLine config stack (b + n) t).Alike b b' (planLine config stack (b' + n) t) := by
  rw [planLine_eq, planLine_eq]
  refine ⟨rfl, rfl, (leadingBlankLine? (lineTrivia t)).map fun x => .ofSize n (Text.size x),
    ?_, ?_⟩ <;> simp [Range.ofSize_add, Function.comp_def]

/-- The same token in the same mode, at any two places. -/
structure Lexed.Same (l l' : Lexed) : Prop where
  token : l.token = l'.token
  mode : l.mode = l'.mode
  error : l.error = l'.error
  effect : l.effect = l'.effect

namespace Scanner

/-! ### The end of the text that is not in view -/

/-- The number of characters from the break on that ends the line in view, if one does. -/
def beyond (s : Scanner) : Nat := Text.lineTail (if s.lineStart then contentOf s.rest else s.rest)

/-- Whether nothing of the current line has been looked at. -/
def isFresh (s : Scanner) : Bool := s.lineStart && s.line.isNone && s.peeked.isNone

/-- The number of characters at the end of the text on which nothing depends so far, the break of
the line in view or before it included. -/
def unseen (s : Scanner) : Nat := if s.isFresh then s.rest.length + 1 else s.beyond

section
variable (s : Scanner) (mode : Mode)

lemma beyond_le_lineTail : s.beyond ≤ Text.lineTail s.rest := by
  unfold beyond
  split
  · exact lineTail_contentOf_le s.rest
  · exact le_rfl

lemma beyond_le_length : s.beyond ≤ s.rest.length := by
  have h1 := s.beyond_le_lineTail
  exact le_trans h1 (Text.lineTail_le s.rest)

lemma beyond_le_unseen : s.beyond ≤ s.unseen := by
  unfold unseen
  split
  · exact le_trans s.beyond_le_length (Nat.le_succ _)
  · exact le_rfl

lemma beyond_settle_le : (s.settle mode).beyond ≤ s.beyond := by
  cases hm : mode.isIndentSensitive
  · rw [settle_of_insensitive s hm]
  · have hle := lineTail_contentOf_le s.rest
    rw [settle_of_sensitive s hm]
    unfold beyond
    cases s.lineStart <;> cases s.atUnterminatedEnd <;> simp [hle]

lemma lineTail_body : Text.lineTail (s.body mode) = s.beyond := by
  unfold beyond
  cases h : s.lineStart
  · rw [body_of_midLine s mode h, Text.lineTail_drop (gapLength_le _ _ _)]
    rfl
  · rw [body_of_lineStart s mode h]
    rfl

lemma unseen_looking : (s.looking mode).unseen = (s.settle mode).beyond := by
  simp [unseen, isFresh, looking, beyond]

end

namespace Takes

variable {s s' : Scanner} {mode : Mode} {l : Lexed}

/-- Taking a token keeps the line in view, unless the token is the break that ends it. -/
lemma view (h : s.Sane) (ht : Takes s mode l s') :
    (l.token.kind ≠ .newline ∧ s'.isFresh = false ∧ s'.beyond = s.beyond) ∨
    (l.token.kind = .newline ∧ s'.isFresh = true ∧ ∃ n, Text.lineBreak? (s.body mode) = some n ∧
      s'.rest = (s.body mode).drop n) := by
  cases ht with
  | dedent p hline hd => exact .inl ⟨by simp, by simp [isFresh], by simp [beyond]⟩
  | blank p b t' hm hline hd hb hlead hrest =>
    have hstart := (h.plan p hline).lineStart
    obtain ⟨t'', -, hrest', hc, -⟩ := leadingBlankLine?_spec hlead
    obtain rfl : t' = t'' := List.append_cancel_left (hrest.symm.trans hrest')
    exact .inl ⟨by simp, by simp [isFresh], by simp [beyond, hstart, hc]⟩
  | indent p w hline hd he =>
    have hstart := (h.plan p hline).lineStart
    exact .inl ⟨by simp [Token.ofParts], by simp [isFresh],
      by simp [beyond, hstart, contentOf_contentOf]⟩
  | mismatch p _ hline hd he hl =>
    have hstart := (h.plan p hline).lineStart
    have hd := Text.lineTail_drop (t := contentOf s.rest) le_rfl
    exact .inl ⟨by simp [hl, Token.ofParts], by simp [isFresh], by simp [beyond, hstart, hd]⟩
  | content _ hidle hblank hl =>
    have hbody := s.lineTail_body mode
    subst hl
    rw [content_token, Token.ofParts]
    have hread := reading_next mode (s.body mode)
    generalize Lexeme.next mode (s.body mode) = x, behind mode (s.body mode) = t' at hread
    cases hread with
    | eof hnil =>
      rw [hnil, Text.lineTail_nil] at hbody
      refine .inl ⟨by simp, by simp [isFresh], ?_⟩
      rw [← hbody]
      rfl
    | newline n hn => exact .inr ⟨rfl, by simp [isFresh], n, hn, rfl⟩
    | plain _ _ hne hbreak hfits _ hafter =>
      refine .inl ⟨hfits.plain.newline, by simp [isFresh, hfits.plain.newline], ?_⟩
      simp only [beyond, hfits.plain.newline, decide_false, Bool.false_eq_true, if_false]
      rw [hafter, hbody]
      rfl

/-- Taking a token leaves unseen what was out of view before. -/
lemma unseen_le (h : s.Sane) (ht : Takes s mode l s') : s'.unseen ≤ s.beyond := by
  rcases ht.view h with ⟨-, hfresh, hbeyond⟩ | ⟨-, hfresh, n, hn, hrest⟩
  · simp [unseen, hfresh, hbeyond]
  · have hpos := (lineBreak?_pos hn).1
    have htail := Text.lineTail_of_lineBreak? hn
    rw [s.lineTail_body mode, ← hrest] at htail
    simp only [unseen, hfresh, if_true]
    omega

/-- What is out of view stays in the text. -/
lemma length_le (h : s.Sane) (ht : Takes s mode l s') {x v v' : Text} (hx : s.rest = x ++ v)
    (hv : Text.Hides v v' s.beyond) : v.length ≤ s'.rest.length := by
  rcases ht.view h with ⟨-, -, hbeyond⟩ | ⟨-, -, n, hn, hrest⟩
  · have hlt := hv.lt
    have hle := s'.beyond_le_length
    omega
  · have hn2 := Text.lineBreak?_le_two hn
    have htail := Text.lineTail_of_lineBreak? hn
    rw [s.lineTail_body mode, ← hrest] at htail
    rcases hv with hv | ⟨hv, hhead, -⟩
    · omega
    · by_contra hlt
      -- only the second half of `\r\n` could be cut off, and the end does not start with it
      obtain rfl : n = 2 := by omega
      obtain ⟨r, hr⟩ := Text.eq_of_lineBreak?_two hn
      rw [hr] at hrest
      have hsuffix : '\n' :: r <:+ x ++ v := by
        rw [← hx, ← s.concat_leading mode, hr]
        exact (List.suffix_cons '\r' ('\n' :: r)).trans (List.suffix_append _ _)
      have hlen : ('\n' :: r).length = v.length := by
        rw [List.length_cons, show r = s'.rest from hrest.symm]
        omega
      have heq : '\n' :: r = v :=
        (List.suffix_of_suffix_length_le hsuffix (List.suffix_append x v) hlen.le).eq_of_length hlen
      rw [← heq] at hhead
      exact hhead rfl

end Takes

section
variable {s : Scanner} (h : s.Good) (mode : Mode)
include h

lemma Good.unseen_after_le : (s.after mode).unseen ≤ (s.settle mode).beyond :=
  (h.takes mode).unseen_le (h.settle mode)

lemma Good.unseen_after_mono : (s.after mode).unseen ≤ s.unseen :=
  le_trans (h.unseen_after_le mode) (le_trans (s.beyond_settle_le mode) s.beyond_le_unseen)

end

lemma unseen_looking_mono (s : Scanner) (mode : Mode) : (s.looking mode).unseen ≤ s.unseen :=
  le_trans (s.unseen_looking mode).le (le_trans (s.beyond_settle_le mode) s.beyond_le_unseen)

/-! ### Scanners of two texts -/

/-- Either two texts have the same end, or their different ends `v` and `v'` lie within the last `n`
characters. -/
def Hidden (v v' : Text) (n : Nat) : Prop := (v = [] ∧ v' = []) ∨ Text.Hides v v' n

lemma Hidden.mono {v v' : Text} {n m : Nat} (h : Hidden v v' n) (hle : n ≤ m) : Hidden v v' m :=
  h.imp_right fun h => h.mono hle

/-- Two scanners in the same state: one reads a text that ends with `v` and counts from `b`, the
other reads one that ends with `v'` and counts from `b'`. -/
structure Alike (v v' : Text) (b b' : Nat) (s s' : Scanner) : Prop where
  config : s.config = s'.config
  rest : ∃ x, s.rest = x ++ v ∧ s'.rest = x ++ v'
  offset : ∃ n, s.offset = b + n ∧ s'.offset = b' + n
  stack : s.stack = s'.stack
  lineStart : s.lineStart = s'.lineStart
  line : Option.Rel (LinePlan.Alike b b') s.line s'.line

namespace Alike

variable {v v' : Text} {b b' : Nat} {s s' : Scanner}

lemma sameLine (h : Alike v v' b b' s s') (hv : Hidden v v' s.beyond) :
    s.rest = s'.rest ∨ Text.SameLine Text.SameBreak s.rest s'.rest := by
  obtain ⟨x, h1, h2⟩ := h.rest
  rcases hv with ⟨rfl, rfl⟩ | hv
  · exact .inl (h1.trans h2.symm)
  · have hle := s.beyond_le_lineTail
    rw [h1] at hle ⊢
    rw [h2]
    exact .inr (.of_hides x (hv.mono hle))

lemma settle (h : Alike v v' b b' s s') {mode : Mode} (hv : Hidden v v' (s.settle mode).beyond) :
    Alike v v' b b' (s.settle mode) (s'.settle mode) := by
  cases hm : mode.isIndentSensitive
  · rw [settle_of_insensitive s hm, settle_of_insensitive s' hm]
    exact h
  · have hend : s.atUnterminatedEnd = s'.atUnterminatedEnd := by
      unfold atUnterminatedEnd
      rw [h.stack]
      rcases h.sameLine (hv.mono (s.beyond_settle_le mode)) with heq | hsame
      · rw [heq]
      · rw [List.isEmpty_eq_false_iff.2 hsame.dropBlanks.ne_nil.1,
          List.isEmpty_eq_false_iff.2 hsame.dropBlanks.ne_nil.2]
    have hplan : (s.lineStart || s.atUnterminatedEnd) = true →
        (planLine s.config s.stack s.offset s.rest).Alike b b'
          (planLine s'.config s'.stack s'.offset s'.rest) := by
      intro hstart
      obtain ⟨x, h1, h2⟩ := h.rest
      obtain ⟨n, h3, h4⟩ := h.offset
      have heq : planLine s.config s.stack s'.offset s.rest =
          planLine s.config s.stack s'.offset s'.rest := by
        rw [h1, h2]
        rcases hv with ⟨rfl, rfl⟩ | hv
        · rfl
        · rw [settle_of_sensitive s hm, beyond, if_pos hstart, h1] at hv
          exact planLine_hides _ _ _ x hv
      rw [← h.config, ← h.stack, ← heq, h3, h4]
      exact planLine_alike _ _ _ _ _ _
    rw [settle_of_sensitive s hm, settle_of_sensitive s' hm, ← hend, ← h.lineStart]
    refine ⟨h.config, h.rest, h.offset, h.stack, rfl, ?_⟩
    have hline := h.line
    generalize s.line = p, s'.line = p' at hline
    cases hline with
    | some hp =>
      simp only [Option.isNone_some, Bool.and_false, Bool.false_eq_true, if_false]
      exact .some hp
    | none =>
      cases hstart : s.lineStart || s.atUnterminatedEnd
      · exact .none
      · exact .some (hplan hstart)

lemma trailing_eq {E : Text → Text → Prop} {t t' : Text} (h : Text.SameLine E t t') (mode : Mode)
    (kind : Kind) :
    trailing mode kind t = trailing mode kind t' := by
  have hb := h.dropBlanks
  have hends : endsText (Text.dropBlanks t) = endsText (Text.dropBlanks t') := by
    simp only [endsText, List.any_cons, List.any_nil, hb.atLineEnd_eq,
      hb.startsWith_eq (m := "//") (by decide), hb.startsWith_eq (m := "#") (by decide),
      hb.startsWith_eq (m := "<<") (by decide), hb.startsWith_eq (m := ">>") (by decide)]
  unfold trailing
  rw [hends, gap_eq _ _ h]

/-- The next token is read at the same place of the line. -/
lemma leading_eq (h : Alike v v' b b' s s') (hv : Hidden v v' s.beyond) (mode : Mode) :
    s.leading mode = s'.leading mode ∧
      (s.body mode = s'.body mode ∨ Text.SameLine Text.SameBreak (s.body mode) (s'.body mode)) := by
  cases hs : s.lineStart
  · have hs' := h.lineStart.symm.trans hs
    rw [body_of_midLine s mode hs, body_of_midLine s' mode hs']
    simp only [leading, hs, hs', Bool.false_eq_true, if_false]
    rcases h.sameLine hv with heq | hsame
    · rw [heq]
      exact ⟨rfl, .inl rfl⟩
    · have hgap := gap_eq mode.skipsBlanks mode.allowsComments hsame
      have hlen : gapLength mode.skipsBlanks mode.allowsComments s'.rest =
          gapLength mode.skipsBlanks mode.allowsComments s.rest := by
        rw [gapLength, ← hgap]
        rfl
      rw [hlen]
      exact ⟨hgap, .inr (hsame.drop (gapLength_le _ _ _))⟩
  · have hs' := h.lineStart.symm.trans hs
    rw [body_of_lineStart s mode hs, body_of_lineStart s' mode hs']
    simp only [leading, hs, hs', if_true]
    obtain ⟨x, h1, h2⟩ := h.rest
    rcases hv with ⟨rfl, rfl⟩ | hv
    · rw [h1, h2]
      exact ⟨rfl, .inl rfl⟩
    · rw [beyond, if_pos hs, h1] at hv
      rw [h1, h2]
      obtain ⟨h3, h4⟩ := lineTrivia_eq x hv
      exact ⟨h3, .inr h4⟩

lemma content_same (h : Alike v v' b b' s s') (hv : Hidden v v' s.beyond) (mode : Mode) :
    (s.content mode).Same (s'.content mode) := by
  obtain ⟨hlead, hbody⟩ := h.leading_eq hv mode
  rw [s.content_eq_body, s'.content_eq_body, ← hlead]
  rcases hbody with heq | hsame
  · rw [heq]
    exact ⟨rfl, rfl, rfl, rfl⟩
  · rw [← Lexeme.next_eq hsame mode]
    have hread := reading_next mode (s.body mode)
    generalize Lexeme.next mode (s.body mode) = x, behind mode (s.body mode) = t' at hread
    cases hread with
    | eof hnil => exact absurd hnil hsame.ne_nil.1
    | newline n hn =>
      have htake := hsame.take_lineBreak? hn
      simp only [htake, trailing_newline]
      exact ⟨rfl, rfl, rfl, rfl⟩
    | plain _ _ hne hbreak hfits _ _ =>
      rw [hsame.take_eq (n := x.length) hfits.le, trailing_eq (hsame.drop hfits.le)]
      exact ⟨rfl, rfl, rfl, rfl⟩

/-- What stands in front of the line is the same, and so is the line itself. -/
lemma lines_eq (h : Alike v v' b b' s s') (hv : Hidden v v' s.beyond)
    (hstart : s.lineStart = true) :
    lineTrivia s.rest = lineTrivia s'.rest ∧
      Text.firstLine (contentOf s.rest) = Text.firstLine (contentOf s'.rest) := by
  obtain ⟨x, h1, h2⟩ := h.rest
  rcases hv with ⟨rfl, rfl⟩ | hv
  · rw [h1, h2]
    exact ⟨rfl, rfl⟩
  · rw [beyond, if_pos hstart, h1] at hv
    rw [h1, h2]
    obtain ⟨h3, h4⟩ := lineTrivia_eq x hv
    exact ⟨h3, h4.firstLine_eq⟩

lemma symm (h : Alike v v' b b' s s') : Alike v' v b' b s' s := by
  obtain ⟨h1, ⟨x, h2, h2'⟩, ⟨n, h3, h3'⟩, h4, h5, h6⟩ := h
  refine ⟨h1.symm, ⟨x, h2', h2⟩, ⟨n, h3', h3⟩, h4.symm, h5.symm, ?_⟩
  generalize s.line = p, s'.line = p' at h6
  cases h6 with
  | some h => exact .some h.symm
  | none => exact .none

lemma line_of_some (h : Alike v v' b b' s s') {p : LinePlan} (hline : s.line = some p) :
    ∃ p', s'.line = some p' ∧ p.Alike b b' p' := by
  have hrel := h.line
  rw [hline] at hrel
  generalize s'.line = o at hrel
  cases hrel with
  | some hp => exact ⟨_, rfl, hp⟩

lemma line_of_none (h : Alike v v' b b' s s') (hline : s.line = none) : s'.line = none := by
  have hrel := h.line
  rw [hline] at hrel
  generalize s'.line = o at hrel
  cases hrel with
  | none => rfl

lemma blankAt?_eq_none (h : Alike v v' b b' s s') {p p' : LinePlan} (hp : p.Alike b b' p')
    (hb : p.blankAt? s.offset = none) : p'.blankAt? s'.offset = none := by
  obtain ⟨n, h1, h2⟩ := h.offset
  rw [h2]
  exact hp.blankAt?_eq_none (h1 ▸ hb)

/-- Where the one takes a token of the text, so does the other. -/
lemma takes_content (h : Alike v v' b b' s s') {mode : Mode}
    (hidle : ∀ p, s.line = some p → p.dedents = 0 ∧ p.entry = .level)
    (hb : mode = .afterOption → ∀ p, s.line = some p → p.blankAt? s.offset = none) :
    ∃ u', Takes s' mode (s'.content mode) u' := by
  refine ⟨_, .content _ (fun p' hline' => ?_) (fun hm p' hline' => ?_) rfl⟩
  · obtain ⟨p, hline, hp⟩ := h.symm.line_of_some hline'
    rw [hp.dedents, hp.entry]
    exact hidle p hline
  · obtain ⟨p, hline, hp⟩ := h.symm.line_of_some hline'
    exact h.blankAt?_eq_none hp.symm (hb hm p hline)

/-- **What stands next is the same on both sides.** -/
lemma takes_same (h : Alike v v' b b' s s') (hs : s.Sane) (hv : Hidden v v' s.beyond) {mode : Mode}
    {l l' : Lexed} {u u' : Scanner} (ht : Takes s mode l u) (ht' : Takes s' mode l' u') :
    l.Same l' := by
  have hlines := h.lines_eq hv
  cases ht with
  | dedent p hline hd =>
    obtain ⟨p', hline', hp⟩ := h.line_of_some hline
    obtain ⟨rfl, -⟩ := ht'.unique (.dedent p' hline' (hp.dedents ▸ hd))
    exact ⟨rfl, rfl, rfl, rfl⟩
  | blank p w t' hm hline hd hb hlead hrest =>
    obtain ⟨p', hline', hp⟩ := h.line_of_some hline
    obtain ⟨n, h1, h2⟩ := h.offset
    have hb' : p'.blankAt? s'.offset = some (.ofSize s'.offset (Text.size w)) := by
      rw [h2]
      exact hp.blankAt?_eq_some (h1 ▸ hb)
    rw [(hlines (hs.plan p hline).lineStart).1] at hlead
    obtain ⟨t'', -, hrest', -, -⟩ := leadingBlankLine?_spec hlead
    obtain ⟨rfl, -⟩ := ht'.unique
      (.blank p' w t'' hm hline' (hp.dedents ▸ hd) hb' hlead hrest')
    exact ⟨rfl, rfl, rfl, rfl⟩
  | indent p w hline hd he hb =>
    obtain ⟨p', hline', hp⟩ := h.line_of_some hline
    obtain ⟨rfl, -⟩ := ht'.unique (.indent p' w hline' (hp.dedents ▸ hd) (hp.entry ▸ he)
      fun hm => h.blankAt?_eq_none hp (hb hm))
    rw [(hlines (hs.plan p hline).lineStart).1]
    exact ⟨rfl, rfl, rfl, rfl⟩
  | mismatch p _ hline hd he hl hb =>
    obtain ⟨p', hline', hp⟩ := h.line_of_some hline
    obtain ⟨rfl, -⟩ := ht'.unique (.mismatch p' _ hline' (hp.dedents ▸ hd) (hp.entry ▸ he) rfl
      fun hm => h.blankAt?_eq_none hp (hb hm))
    obtain ⟨h1, h2⟩ := hlines (hs.plan p hline).lineStart
    rw [hl, h1, h2]
    exact ⟨rfl, rfl, rfl, rfl⟩
  | content _ hidle hb hl =>
    obtain ⟨_, htext⟩ := h.takes_content hidle hb
    obtain ⟨rfl, -⟩ := ht'.unique htext
    exact hl ▸ h.content_same hv mode

lemma ahead_same (h : Alike v v' b b' s s') (hs : s.Good) (hs' : s'.Good) {mode : Mode}
    (hv : Hidden v v' (s.settle mode).beyond) : (s.ahead mode).Same (s'.ahead mode) :=
  (h.settle hv).takes_same (hs.settle mode) hv (hs.takes mode) (hs'.takes mode)

lemma looking (h : Alike v v' b b' s s') {mode : Mode} (hv : Hidden v v' (s.settle mode).beyond) :
    Alike v v' b b' (s.looking mode) (s'.looking mode) := by
  obtain ⟨h1, h2, h3, h4, h5, h6⟩ := h.settle hv
  exact ⟨h1, h2, h3, h4, h5, h6⟩

lemma commandAhead_eq (h : Alike v v' b b' s s') (hs : s.Good) (hs' : s'.Good) {mode : Mode}
    (hv : Hidden v v' (s.settle mode).beyond) : s.commandAhead mode = s'.commandAhead mode := by
  have htoken := (h.ahead_same hs hs' hv).token
  by_cases hk : (s.ahead mode).token.kind = .commandStart
  · obtain ⟨hfits, heq⟩ := hs.commandAhead_eq hk
    obtain ⟨-, heq'⟩ := hs'.commandAhead_eq (htoken ▸ hk)
    rw [heq, heq']
    rcases ((h.settle hv).leading_eq hv mode).2 with hbody | hsame
    · rw [hbody]
    · rw [← Lexeme.next_eq hsame mode]
      exact commandKeywordAt?_eq (hsame.drop hfits.le)
  · rw [commandAhead, commandAhead, if_neg hk, if_neg (htoken ▸ hk)]

/-- Taking the same token changes the blocks and the plan in the same way. -/
lemma take_fields (h : Alike v v' b b' s s') {l l' : Lexed} (hl : l.Same l') :
    ({ s with peeked := none }.take l).config = ({ s' with peeked := none }.take l').config ∧
    ({ s with peeked := none }.take l).stack = ({ s' with peeked := none }.take l').stack ∧
    ({ s with peeked := none }.take l).lineStart = ({ s' with peeked := none }.take l').lineStart ∧
    Option.Rel (LinePlan.Alike b b') ({ s with peeked := none }.take l).line
      ({ s' with peeked := none }.take l').line := by
  have hreplan {f : LinePlan → LinePlan}
      (hf : ∀ p p' : LinePlan, p.Alike b b' p' → (f p).Alike b b' (f p')) :
      Option.Rel (LinePlan.Alike b b') (s.line.map f) (s'.line.map f) := by
    have hline := h.line
    generalize s.line = p, s'.line = p' at hline
    cases hline with
    | some hp => exact .some (hf _ _ hp)
    | none => exact .none
  unfold take
  rw [report_eq, report_eq { s' with peeked := none }, ← hl.effect, ← hl.token]
  cases l.effect
  · exact ⟨h.config, congrArg IndentStack.pop h.stack, h.lineStart,
      hreplan fun p p' hp => ⟨congrArg (· - 1) hp.dedents, hp.entry, hp.blank⟩⟩
  · exact ⟨h.config, h.stack, h.lineStart,
      hreplan fun p p' hp => ⟨hp.dedents, hp.entry, none, rfl, rfl⟩⟩
  · exact ⟨h.config, congrArg (IndentStack.push · _) h.stack, h.lineStart,
      hreplan fun p p' hp => ⟨hp.dedents, rfl, hp.blank⟩⟩
  · exact ⟨h.config, h.stack, rfl, .none⟩

/-- The same token is taken on both sides, if it lies before the ends of the texts. -/
lemma after_of_ahead_same {mode : Mode} (hset : Alike v v' b b' (s.settle mode) (s'.settle mode))
    (hs : s.Good) (hs' : s'.Good) (hahead : (s.ahead mode).Same (s'.ahead mode))
    (hlen : v.length ≤ (s.after mode).rest.length) :
    Alike v v' b b' (s.after mode) (s'.after mode) := by
  have ht := hs.takes mode
  have ht' := hs'.takes mode
  obtain ⟨hconfig, hstack, hstart, hline⟩ := hset.take_fields hahead
  refine ⟨hconfig, ?_, ?_, hstack, hstart, hline⟩
  · obtain ⟨x, h1, h2⟩ := hset.rest
    have heq := ht.rest_eq.symm.trans h1
    have heq' := ht'.rest_eq.symm.trans h2
    rw [← hahead.token] at heq'
    obtain ⟨y, hy, hy'⟩ : ∃ y, x = (s.ahead mode).token.fullText ++ y ∧
        (s.after mode).rest = y ++ v := by
      rcases List.append_eq_append_iff.1 heq with ⟨y, h3, h4⟩ | ⟨y, h3, h4⟩
      · exact ⟨y, h3, h4⟩
      · have := congrArg List.length h4
        simp only [List.length_append] at this
        obtain rfl : y = [] := List.length_eq_zero_iff.1 (by omega)
        exact ⟨[], by simpa using h3.symm, by simpa using h4.symm⟩
    refine ⟨y, hy', ?_⟩
    rw [hy, List.append_assoc] at heq'
    exact List.append_cancel_left heq'
  · obtain ⟨n, h1, h2⟩ := hset.offset
    refine ⟨n + (s.ahead mode).token.size, ?_, ?_⟩
    · rw [ht.offset_eq, h1, Nat.add_assoc]
    · rw [ht'.offset_eq, h2, ← hahead.token, Nat.add_assoc]

lemma after (h : Alike v v' b b' s s') (hs : s.Good) (hs' : s'.Good) {mode : Mode}
    (hv : Hidden v v' (s.settle mode).beyond) :
    Alike v v' b b' (s.after mode) (s'.after mode) := by
  have hset := h.settle hv
  refine after_of_ahead_same hset hs hs' (h.ahead_same hs hs' hv) ?_
  obtain ⟨x, h1, -⟩ := hset.rest
  rcases hv with ⟨rfl, -⟩ | hv
  · simp
  · exact (hs.takes mode).length_le (hs.settle mode) h1 hv

end Alike

end Scanner

end DialogueScript
