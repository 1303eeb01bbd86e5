import DialogueScript.Proofs.Scanner.Calls
import DialogueScript.Proofs.Scanner.Errors

/-!
What tokens and the trivia around them look like. Trivia is what its kind says, a line breaks only
in the tokens that stand for line breaks and in skipped lines, and the two characters of `\r\n` are
never taken apart. The last holds because no token ends between them: a token ends within a line or
behind a whole line break.
-/

namespace DialogueScript

namespace Text

/-- No `\r\n` is taken apart between two parts of a text. -/
def Unsplit (before after : Text) : Prop := before.getLast? = some '\r' → after.head? ≠ some '\n'

/-- One line break, which stands whole between two parts of a text. -/
structure WholeBreak (before part after : Text) : Prop where
  spelled : part = ['\r', '\n'] ∨ part = ['\n'] ∨ part = ['\r']
  start : Unsplit before (part ++ after)
  stop : Unsplit (before ++ part) after

lemma oneLine_nil : OneLine [] := rfl

lemma OneLine.of_subset {s t : Text} (h : OneLine t) (hs : s ⊆ t) : OneLine s := by
  simp only [OneLine, List.all_eq_true] at h ⊢
  exact fun c hc => h c (hs hc)

lemma oneLine_firstLine (t : Text) : OneLine (firstLine t) := by
  simp only [OneLine, List.all_eq_true]
  intro c hc
  rw [isLineBreak_of_mem_firstLine hc]
  rfl

/-- What a text begins with is one line if it is no longer than the first line. -/
lemma OneLine.of_isPrefix {s t : Text} (h : s <+: t) (hlen : s.length ≤ (firstLine t).length) :
    OneLine s := by
  have hpre : s <+: firstLine t :=
    List.prefix_of_prefix_length_le h (List.takeWhile_prefix _) hlen
  exact (oneLine_firstLine t).of_subset hpre.subset

lemma startsComment_firstLine {t : Text} (h : startsComment t = true) :
    startsComment (firstLine t) = true := by
  obtain ⟨r, rfl⟩ := startsComment_iff.1 h
  exact startsComment_iff.2 ⟨firstLine r, by simp [firstLine, isLineBreak]⟩

lemma oneLine_take {t : Text} {n : Nat} (h : n ≤ (firstLine t).length) : OneLine (t.take n) :=
  .of_isPrefix (List.take_prefix n t) (by rw [List.length_take]; omega)

/-- No `\r\n` is taken apart behind a part of a line. -/
lemma Unsplit.append_oneLine {before w after : Text} (h : Unsplit before (w ++ after))
    (hw : OneLine w) : Unsplit (before ++ w) after := by
  rcases List.eq_nil_or_concat w with rfl | ⟨u, c, rfl⟩
  · simpa using h
  · intro hlast
    rw [List.concat_eq_append, ← List.append_assoc, List.getLast?_concat, Option.some.injEq]
      at hlast
    have := hw.not_break c (by simp)
    rw [hlast] at this
    exact absurd this (by decide)

lemma unsplit_nil (before : Text) : Unsplit before [] := by simp [Unsplit]

/-- Nor behind the whole of a line break. -/
lemma unsplit_lineBreak? (before : Text) {t : Text} {n : Nat} (h : lineBreak? t = some n) :
    Unsplit (before ++ t.take n) (t.drop n) := by
  unfold lineBreak? at h
  split at h
  · obtain rfl := (Option.some.inj h).symm
    simp [Unsplit]
  · next r hr =>
    obtain rfl := (Option.some.inj h).symm
    intro _ hhead
    rcases r with _ | ⟨d, ds⟩
    · simp at hhead
    · simp only [List.drop_succ_cons, List.drop_zero, List.head?_cons, Option.some.injEq] at hhead
      exact hr ds (by rw [hhead])
  · obtain rfl := (Option.some.inj h).symm
    simp [Unsplit]
  · simp at h

lemma wholeBreak_of_lineBreak? {before t : Text} {n : Nat} (hb : Unsplit before t)
    (h : lineBreak? t = some n) : WholeBreak before (t.take n) (t.drop n) := by
  refine ⟨?_, by rwa [List.take_append_drop], unsplit_lineBreak? before h⟩
  unfold lineBreak? at h
  split at h <;> simp_all
  all_goals subst h; simp

end Text

open Text (Unsplit OneLine)

/-! ### Trivia -/

namespace Trivia

/-- A piece of trivia is what its kind says, between two parts of a text. -/
def Shaped (before : Text) (p : Trivia) (after : Text) : Prop :=
  match p.kind with
  | .whitespace => p.text ≠ [] ∧ ∀ c ∈ p.text, c = ' ' ∨ c = '\t'
  | .newline => Text.WholeBreak before p.text after
  | .comment => Text.startsComment p.text = true ∧ OneLine p.text

/-- The pieces in a row between two parts of a text are what their kinds say. -/
def AllShaped : Text → List Trivia → Text → Prop
  | _, [], _ => True
  | before, p :: ps, after =>
    p.Shaped before (concat ps ++ after) ∧ AllShaped (before ++ p.text) ps after

lemma allShaped_append {before after : Text} {ps qs : List Trivia} :
    AllShaped before (ps ++ qs) after ↔
      AllShaped before ps (concat qs ++ after) ∧ AllShaped (before ++ concat ps) qs after := by
  induction ps generalizing before with
  | nil => simp [AllShaped]
  | cons p ps ih => simp [AllShaped, ih, and_assoc]

/-- A piece that breaks no line looks alike wherever it stands. -/
def Inline (p : Trivia) : Prop := p.kind ≠ .newline ∧ ∀ before after, p.Shaped before after

lemma allShaped_of_inline {ps : List Trivia} (h : ∀ p ∈ ps, p.Inline) (before after : Text) :
    AllShaped before ps after := by
  induction ps generalizing before with
  | nil => trivial
  | cons p ps ih =>
    exact ⟨(h p List.mem_cons_self).2 _ _, ih (fun q hq => h q (List.mem_cons_of_mem p hq)) _⟩

lemma inline_gap (blanks comments : Bool) (t : Text) : ∀ p ∈ gap blanks comments t, p.Inline := by
  have hblanks : ∀ u, ∀ p ∈ blankTrivia u, p.Inline := by
    intro u p hp
    unfold blankTrivia at hp
    split at hp
    · simp at hp
    · next hne =>
      obtain rfl := List.mem_singleton.1 hp
      refine ⟨by simp, fun _ _ => ⟨hne, fun c hc => ?_⟩⟩
      simpa [isBlank] using List.mem_takeWhile_imp hc
  have hcomment : ∀ u, ∀ p ∈ commentTrivia u, p.Inline := by
    intro u p hp
    unfold commentTrivia at hp
    split at hp
    · next hc =>
      obtain rfl := List.mem_singleton.1 hp
      exact ⟨by simp, fun _ _ => ⟨Text.startsComment_firstLine hc, Text.oneLine_firstLine u⟩⟩
    · simp at hp
  intro p hp
  unfold gap at hp
  rcases List.mem_append.1 hp with hp | hp
  · split at hp
    · exact hblanks _ p hp
    · simp at hp
  · split at hp
    · exact hcomment _ p hp
    · simp at hp

lemma oneLine_gap (blanks comments : Bool) (t : Text) :
    OneLine (concat (gap blanks comments t)) := by
  rw [concat_gap]
  exact Text.oneLine_take (gapLength_le blanks comments t)

/-- Blanks and a comment, and what stands behind them. -/
lemma gap_spec {before t : Text} (blanks comments : Bool) (h : Unsplit before t) :
    AllShaped before (gap blanks comments t) (t.drop (gapLength blanks comments t)) ∧
      Unsplit (before ++ concat (gap blanks comments t))
        (t.drop (gapLength blanks comments t)) := by
  refine ⟨allShaped_of_inline (inline_gap blanks comments t) _ _, Unsplit.append_oneLine ?_
    (oneLine_gap blanks comments t)⟩
  rwa [concat_gap, List.take_append_drop]

/-- Skipped lines, and the line that they lead to. -/
lemma lineTrivia_spec {before t : Text} (h : Unsplit before t) :
    AllShaped before (lineTrivia t) (contentOf t) ∧
      Unsplit (before ++ concat (lineTrivia t)) (contentOf t) := by
  induction t using skipped_induction generalizing before with
  | here t hb =>
    rw [lineTrivia_of_none hb, contentOf_of_none hb]
    exact gap_spec true true h
  | skip t n hb ih =>
    obtain ⟨hgap, hsplit⟩ := gap_spec true true h
    rw [lineTrivia_of_some hb, contentOf_of_some hb]
    generalize t.drop (gapLength true true t) = u at hb ih hgap hsplit
    have hbreak := Text.wholeBreak_of_lineBreak? hsplit hb
    obtain ⟨h1, h2⟩ := ih hbreak.stop
    have hrest : concat (lineTrivia (u.drop n)) ++ contentOf (u.drop n) = u.drop n :=
      concat_lineTrivia _
    refine ⟨allShaped_append.2 ⟨?_, ?_, h1⟩, ?_⟩
    · rwa [concat_cons, List.append_assoc, hrest, List.take_append_drop]
    · rwa [hrest]
    · rwa [concat_append, concat_cons, ← List.append_assoc, ← List.append_assoc]

/-- A blank line that is a token of its own ends with its line break. -/
lemma unsplit_blankLine {t b t' : Text} (h : leadingBlankLine? (lineTrivia t) = some b)
    (ht : t = b ++ t') (before : Text) : Unsplit (before ++ b) t' := by
  rcases hb : Text.lineBreak? (t.drop (gapLength true true t)) with _ | n
  · rw [lineTrivia_of_none hb, leadingBlankLine?_gap] at h
    simp at h
  · rw [lineTrivia_of_some hb] at h
    have hline := eq_of_leadingBlankLine? h
    have hrest : t' = (t.drop (gapLength true true t)).drop n := by
      refine List.append_cancel_left (ht.symm.trans ?_ : b ++ t' = b ++ _)
      rw [hline, concat_gap, List.append_assoc, List.take_append_drop, List.take_append_drop]
    rw [hline, hrest, ← List.append_assoc]
    exact Text.unsplit_lineBreak? _ hb

end Trivia

/-! ### Tokens -/

/-- A token between two parts of a text, made of its own text and the trivia around that. -/
structure Token.Shaped (before : Text) (token : Token) (after : Text) (leading : List Trivia)
    (own : Text) (trailing : List Trivia) : Prop where
  parts : token = .ofParts leading token.kind own trailing
  leading_shaped : Trivia.AllShaped before leading (own ++ Trivia.concat trailing ++ after)
  trailing_shaped : Trivia.AllShaped (before ++ Trivia.concat leading ++ own) trailing after
  trailing_inline : ∀ p ∈ trailing, p.kind ≠ .newline
  own_oneLine : token.kind ≠ .newline → token.kind ≠ .blankLine → OneLine own
  own_empty : own = [] ↔ token.kind = .indent ∨ token.kind = .dedent ∨ token.kind = .eof

namespace Scanner

variable {s s' : Scanner} {mode : Mode} {before : Text}

lemma leading_spec (mode : Mode) (h : Unsplit before s.rest) :
    Trivia.AllShaped before (s.leading mode) (s.body mode) ∧
      Unsplit (before ++ Trivia.concat (s.leading mode)) (s.body mode) := by
  cases hl : s.lineStart
  · rw [body_of_midLine s mode hl, leading, if_neg (by simp [hl])]
    exact Trivia.gap_spec _ _ h
  · rw [body_of_lineStart s mode hl, leading, if_pos hl]
    exact Trivia.lineTrivia_spec h

lemma inline_trailing (mode : Mode) (kind : Kind) (t : Text) :
    ∀ p ∈ trailing mode kind t, p.Inline := by
  unfold trailing
  split
  · simp
  · exact Trivia.inline_gap _ _ t

/-- A token of the text, without the trivia before it. -/
lemma Reading.spec {t t' : Text} {l : Lexeme} (hr : Reading mode t t' l) (h : Unsplit before t) :
    t = t.take l.length ++ Trivia.concat (trailing mode l.kind (t.drop l.length)) ++ t' ∧
      (l.kind ≠ .newline → OneLine (t.take l.length)) ∧ (t.take l.length = [] ↔ l.kind = .eof) ∧
      Unsplit (before ++ t.take l.length ++
        Trivia.concat (trailing mode l.kind (t.drop l.length))) t' := by
  cases hr with
  | eof ht =>
    subst ht
    simp [trailing_eof, Text.oneLine_nil, Text.unsplit_nil]
  | newline n hn =>
    have hpos := (lineBreak?_pos hn).1
    have hne := (lineBreak?_pos hn).2
    refine ⟨by simp [trailing_newline], by simp, by simp [List.take_eq_nil_iff, hne]; omega, ?_⟩
    simpa [trailing_newline] using Text.unsplit_lineBreak? before hn
  | plain _ _ hne hb hfits htext _ =>
    have hown := Text.oneLine_take hfits.le
    have htrail := concat_trailing mode l.kind (t.drop l.length)
    refine ⟨htext, fun _ => hown, ?_, ?_⟩
    · have hpos := hfits.pos
      simp only [List.take_eq_nil_iff, hne, or_false, hfits.plain.eof, iff_false]
      omega
    · rw [List.append_assoc] at htext
      rw [htext] at h
      exact (h.append_oneLine hown).append_oneLine (.of_isPrefix htrail.1 htrail.2)

/-- **Every token that is taken looks as it should**, and ends where no `\r\n` is taken apart. -/
lemma Takes.shaped {l : Lexed} (ht : Takes s mode l s') (hs : s.Sane) (h : Unsplit before s.rest) :
    (∃ leading own trailing, l.token.Shaped before s'.rest leading own trailing) ∧
      Unsplit (before ++ l.token.fullText) s'.rest := by
  cases ht with
  | dedent p hline hd =>
    exact ⟨⟨[], [], [], rfl, trivial, trivial, by simp, fun _ _ => Text.oneLine_nil, by simp⟩,
      by simpa using h⟩
  | blank p b t' hm hline hd hb hblank hrest =>
    obtain ⟨_, hne, -⟩ := leadingBlankLine?_spec hblank
    exact ⟨⟨[], b, [], by simp [Token.ofParts, Trivia.sizes], trivial, trivial, by simp, by simp,
      by simp [hne]⟩, Trivia.unsplit_blankLine hblank hrest before⟩
  | indent p w hline hd he =>
    obtain ⟨hlead, hsplit⟩ := Trivia.lineTrivia_spec h
    exact ⟨⟨_, [], [], rfl, hlead, trivial, by simp, fun _ _ => Text.oneLine_nil,
      by simp [Token.ofParts]⟩, by simpa [Token.ofParts] using hsplit⟩
  | mismatch p _ hline hd he hl =>
    subst hl
    obtain ⟨hlead, hsplit⟩ := Trivia.lineTrivia_spec h
    have hbreak := lineBreak?_contentOf s.rest
    have hnil := (hs.plan p hline).mismatch he
    generalize contentOf s.rest = u at hlead hsplit hbreak hnil ⊢
    have hcut := Text.firstLine_append_drop u
    have hne : Text.firstLine u ≠ [] := by
      obtain ⟨c, cs, rfl⟩ := List.exists_cons_of_ne_nil hnil
      simp [Text.firstLine_cons cs (Text.lineBreak?_eq_none hbreak)]
    refine ⟨⟨_, _, [], rfl, ?_, trivial, by simp, fun _ _ => Text.oneLine_firstLine u,
      by simp [Token.ofParts, hne]⟩, ?_⟩
    · simpa [hcut] using hlead
    · rw [← hcut] at hsplit
      simpa [Token.ofParts] using hsplit.append_oneLine (Text.oneLine_firstLine u)
  | content _ hidle hblank hl =>
    subst hl
    obtain ⟨hlead, hsplit⟩ := leading_spec mode h
    have hstructural := content_not_structural s mode
    have hread := reading_next mode (s.body mode)
    rw [content_token] at hstructural ⊢
    generalize s.body mode = u at hlead hsplit hread hstructural ⊢
    obtain ⟨htext, hown, hempty, hend⟩ := hread.spec hsplit
    generalize Lexeme.next mode u = x,
      behind mode u = t' at hread hstructural htext hown hempty hend ⊢
    have hinline := inline_trailing mode x.kind (u.drop x.length)
    have hk : x.kind.isStructural = false := hstructural
    refine ⟨⟨_, _, _, rfl, ?_, Trivia.allShaped_of_inline hinline _ _, fun p hp => (hinline p hp).1,
      fun hn _ => hown hn, ?_⟩, ?_⟩
    · rwa [← htext]
    · have h1 : x.kind ≠ .indent := by rintro heq; simp [heq, Kind.isStructural] at hk
      have h2 : x.kind ≠ .dedent := by rintro heq; simp [heq, Kind.isStructural] at hk
      simp [Token.ofParts, hempty, h1, h2]
    · simpa [Token.ofParts, List.append_assoc] using hend

/-- A scanner stands at a position of a text that takes no `\r\n` apart. -/
def Unbroken (t : Text) (s : Scanner) : Prop :=
  ∃ before, t = before ++ s.rest ∧ s.offset = Text.size before ∧ Unsplit before s.rest

variable {t : Text}

lemma Unbroken.within (h : s.Unbroken t) : s.Within t := by
  obtain ⟨before, h1, h2, -⟩ := h
  exact ⟨before, h1, h2⟩

/-- Taking a token leads from one such position to the next. -/
lemma Unbroken.bump (h : s.Unbroken t) (hg : s.Good) (mode : Mode) :
    (∃ before leading own trailing,
      t = before ++ (s.bump mode).1.token.fullText ++ (s.bump mode).2.rest ∧
      s.offset = Text.size before ∧
      (s.bump mode).1.token.Shaped before (s.bump mode).2.rest leading own trailing) ∧
    (s.bump mode).2.Unbroken t := by
  obtain ⟨before, htext, hoff, hsplit⟩ := h
  have ht := hg.takes mode
  have hrest := ht.rest_eq
  have hnext := ht.offset_eq
  rw [settle_rest] at hrest
  rw [settle_offset] at hnext
  rw [← settle_rest s mode] at hsplit
  obtain ⟨⟨leading, own, trailing, hshape⟩, hend⟩ := ht.shaped (hg.settle mode) hsplit
  have hcut : t = before ++ (s.ahead mode).token.fullText ++ (s.after mode).rest := by
    rw [List.append_assoc, ← hrest, htext]
  rw [hg.bump_eq]
  refine ⟨⟨before, leading, own, trailing, hcut, hoff, hshape⟩, _, hcut, ?_, hend⟩
  rw [hnext, hoff, Text.size_append, Token.size]

lemma Unbroken.call (h : s.Unbroken t) (hg : s.Good) (c : Call) : (s.call c).2.Unbroken t := by
  have hsettle : ∀ mode, (s.settle mode).Unbroken t := fun mode => by simpa [Unbroken] using h
  cases c with
  | bump mode => exact (h.bump hg mode).2
  | peek mode =>
    simp only [Scanner.call, hg.peek_eq]
    exact hsettle mode
  | peekCommandKeyword mode =>
    simp only [Scanner.call, hg.peekCommandKeyword_eq]
    exact hsettle mode
  | takeDiagnostics => exact h
  | bumpRest =>
    obtain ⟨before, htext, hoff⟩ := within_bumpRest h.within
    have hnil : s.bumpRest.2.rest = [] := by
      by_cases hrest : s.rest = []
      · rw [bumpRest_of_nil hrest]
        exact hrest
      · rw [bumpRest_of_ne_nil hrest]
    exact ⟨before, htext, hoff, hnil ▸ Text.unsplit_nil before⟩

lemma Unbroken.calls (h : s.Unbroken t) (hg : s.Good) (cs : List Call) :
    (s.calls cs).2.Unbroken t := by
  induction cs generalizing s with
  | nil => exact h
  | cons c cs ih => exact ih (h.call hg c) (call_spec hg h.within c).1

/-- **Tokens and trivia have the shape they claim**, whatever was asked of a scanner from the start
of a text on, in any modes. The rest of the text, taken at once, is one token without trivia. -/
theorem tokens_shaped (config : Config) (t : Text) (cs : List Call) :
    (∀ mode, ∃ before after leading own trailing,
      t = before ++ (((start config t).calls cs).2.bump mode).1.token.fullText ++ after ∧
      ((start config t).calls cs).2.offset = Text.size before ∧
      (((start config t).calls cs).2.bump mode).1.token.Shaped before after leading own trailing) ∧
    ∀ next, ((start config t).calls cs).2.bumpRest.1 = some next →
      next.token = { kind := .errorToken, fullText := ((start config t).calls cs).2.rest } := by
  have hgood : (start config t).Good := good_atLine config t 0 IndentStack.rising_empty
  have hstart : (start config t).Unbroken t := ⟨[], rfl, rfl, by simp [Unsplit]⟩
  have hnow := (calls_spec hgood hstart.within cs).1
  refine ⟨fun mode => ?_, fun next hnext => ?_⟩
  · obtain ⟨before, leading, own, trailing, hshape⟩ := ((hstart.calls hgood cs).bump hnow mode).1
    exact ⟨before, _, leading, own, trailing, hshape⟩
  · by_cases hrest : ((start config t).calls cs).2.rest = []
    · simp [bumpRest_of_nil hrest] at hnext
    · rw [bumpRest_of_ne_nil hrest] at hnext
      rw [← Option.some.inj hnext, Token.token_placed]

/-- Skipped lines are trivia of the first token behind them. -/
example : ((start {} " // c\r\n\tx \r\n".toList).bump .text).1.token =
    .ofParts [⟨.whitespace, [' ']⟩, ⟨.comment, "// c".toList⟩, ⟨.newline, ['\r', '\n']⟩,
      ⟨.whitespace, ['\t']⟩] .text ['x'] [⟨.whitespace, [' ']⟩] := by decide +kernel

end Scanner

end DialogueScript
