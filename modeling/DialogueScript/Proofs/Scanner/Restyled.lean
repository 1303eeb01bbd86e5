import DialogueScript.Proofs.Scanner.Locality
import DialogueScript.Proofs.Scanner.RestyledLines

/-!
A scanner of a text with another layout goes on in step with the scanner of the text itself: it
hands out tokens of the same kinds with the same own texts, except those of line breaks and blank
lines, and the tokens stand at places that correspond.
-/

namespace DialogueScript

open Text

variable {R : Restyling}

/-! ### Tokens -/

/-- Two tokens that differ only in the layout of their text. -/
structure TokenLike (R : Restyling) (l l' : Token) : Prop where
  kind : l.kind = l'.kind
  text : l.kind ≠ .newline → l.kind ≠ .blankLine → l.text? = l'.text?
  breaks : l.kind = .newline → Option.Rel R.breaks l.text? l'.text?
  leading : R.Tidy → l.leading.map Prod.fst = l'.leading.map Prod.fst
  trailing : l.trailing.map Prod.fst = l'.trailing.map Prod.fst

lemma TokenLike.of_eq {l l' : Token} (h : l = l') (hk : l.kind ≠ .newline) : TokenLike R l l' :=
  h ▸ ⟨rfl, fun _ _ => rfl, fun hn => absurd hn hk, fun _ => rfl, rfl⟩

lemma map_fst_sizes (ps : List Trivia) : (Trivia.sizes ps).map Prod.fst = ps.map Trivia.kind := by
  simp [Trivia.sizes]

lemma TokenLike.ofParts {ps ps' : List Trivia} {k : Kind} {own own' : Text} (qs : List Trivia)
    (hps : R.Tidy → ps.map Trivia.kind = ps'.map Trivia.kind)
    (hown : (k = .newline ∧ R.breaks own own') ∨ (k ≠ .newline ∧ own = own')) :
    TokenLike R (.ofParts ps k own qs) (.ofParts ps' k own' qs) := by
  refine ⟨rfl, fun hk _ => ?_, fun hk => ?_, fun hR => ?_, rfl⟩
  · rw [Token.text?_ofParts, Token.text?_ofParts, (hown.resolve_left fun h => hk h.1).2]
  · rw [Token.text?_ofParts, Token.text?_ofParts]
    exact .some (hown.resolve_right fun h => h.1 hk).2
  · simpa only [Token.ofParts, map_fst_sizes] using hps hR

/-! ### Places -/

/-- What stands behind a position of a text. -/
def Text.StandsAt (t : Text) (n : Nat) (rest : Text) : Prop := ∃ pre, t = pre ++ rest ∧ n = size pre

lemma Text.StandsAt.skip {t x y : Text} {n : Nat} (h : StandsAt t n (x ++ y)) :
    StandsAt t (n + size x) y := by
  obtain ⟨pre, rfl, rfl⟩ := h
  exact ⟨pre ++ x, by simp, by simp⟩

/-- Two positions of texts with different layouts that correspond. -/
def PlaceLike (R : Restyling) (T T' : Text) (n n' : Nat) : Prop :=
  ∃ t t', StandsAt T n t ∧ StandsAt T' n' t' ∧ (Lines R t t' ∨ Tail R t t')

structure RangeLike (R : Restyling) (T T' : Text) (r r' : Range) : Prop where
  start : PlaceLike R T T' r.start r'.start
  stop : PlaceLike R T T' r.stop r'.stop

/-- Tokens stand at places that correspond if what they start with and what is behind them does. -/
lemma RangeLike.ofParts {T T' t t' : Text} {n n' : Nat} (ht : StandsAt T n t)
    (ht' : StandsAt T' n' t') {ps ps' qs qs' : List Trivia} {own own' u u' : Text} (k : Kind)
    (hps : Trivia.concat ps ++ (own ++ u) = t) (hps' : Trivia.concat ps' ++ (own' ++ u') = t')
    (hstart : Tail R (own ++ u) (own' ++ u')) (hstop : Lines R u u' ∨ Tail R u u') :
    RangeLike R T T' ((Token.ofParts ps k own qs).range n)
      ((Token.ofParts ps' k own' qs').range n') := by
  subst hps hps'
  rw [Token.range_ofParts, Token.range_ofParts]
  exact ⟨⟨_, _, ht.skip, ht'.skip, .inr hstart⟩, ⟨_, _, ht.skip.skip, ht'.skip.skip, hstop⟩⟩

/-! ### Lexemes -/

namespace Text.Tail

variable {t t' : Text} (h : Tail R t t') (mode : Mode)
include h

lemma gap_eq (blanks comments : Bool) : gap blanks comments t = gap blanks comments t' := by
  rcases h.sameLine with rfl | h
  · rfl
  · exact DialogueScript.gap_eq _ _ h

lemma trailing_eq (kind : Kind) : Scanner.trailing mode kind t = Scanner.trailing mode kind t' := by
  rcases h.sameLine with rfl | h
  · rfl
  · exact Scanner.Alike.trailing_eq h mode kind

lemma commandKeywordAt?_eq : commandKeywordAt? t = commandKeywordAt? t' := by
  rcases h.sameLine with rfl | h
  · rfl
  · exact DialogueScript.commandKeywordAt?_eq h

/-- The next token is the same, or it is a line break in both texts. -/
lemma next_cases : (Lexeme.next mode t = Lexeme.next mode t' ∧
      (Lexeme.next mode t).length ≤ (firstLine t).length ∧ (Lexeme.next mode t).kind ≠ .newline) ∨
    ∃ b b' r r', Ends R t t' b b' r r' ∧ Lexeme.next mode t = ⟨.newline, b.length, none⟩ ∧
      Lexeme.next mode t' = ⟨.newline, b'.length, none⟩ := by
  rcases hn : lineBreak? t with _ | n
  · left
    have heq : Lexeme.next mode t = Lexeme.next mode t' := by
      rcases h.sameLine with rfl | h
      · rfl
      · exact Lexeme.next_eq_of_none h mode hn
    refine ⟨heq, ?_⟩
    rcases t with _ | ⟨c, cs⟩
    · rw [Lexeme.next_nil]
      simp
    · have hfits := Lexeme.fits_next mode cs (lineBreak?_eq_none hn)
      exact ⟨hfits.le, hfits.plain.newline⟩
  · right
    obtain ⟨b, b', r, r', hends⟩ := h.ends hn
    exact ⟨b, b', r, r', hends, Lexeme.next_of_lineBreak? mode hends.lineBreak,
      Lexeme.next_of_lineBreak? mode hends.lineBreak'⟩

end Text.Tail

namespace Scanner

lemma Takes.standsAt {s u : Scanner} {mode : Mode} {l : Lexed} {t : Text} (ht : Takes s mode l u)
    (h : StandsAt t s.offset s.rest) : StandsAt t u.offset u.rest := by
  rw [ht.offset_eq]
  exact StandsAt.skip (ht.rest_eq ▸ h)

/-- Two scanners at corresponding places of texts with different layouts. -/
structure Restyled (R : Restyling) (T T' : Text) (s s' : Scanner) : Prop where
  config : s.config = s'.config
  tabWidth : s.config.tabWidth = R.tabWidth
  stack : List.Forall₂ R.widths s.stack.widths s'.stack.widths
  lineStart : s.lineStart = s'.lineStart
  start : s.lineStart = true → Lines R s.rest s'.rest
  middle : s.lineStart = false → Tail R s.rest s'.rest
  line : Option.Rel (PlanLike R s.offset s'.offset) s.line s'.line
  place : StandsAt T s.offset s.rest
  place' : StandsAt T' s'.offset s'.rest

namespace Restyled

variable {T T' : Text} {s s' : Scanner} (h : Restyled R T T' s s')
include h

lemma rest : Lines R s.rest s'.rest ∨ Tail R s.rest s'.rest := by
  cases hs : s.lineStart
  · exact .inr (h.middle hs)
  · exact .inl (h.start hs)

lemma isNone_line : s.line.isNone = s'.line.isNone := by
  have hline := h.line
  cases hp : s.line <;> cases hp' : s'.line <;> rw [hp, hp'] at hline <;> first | rfl | cases hline

/-- Both have a plan for their line, or neither has. -/
lemma line_of_some {p : LinePlan} (hp : s.line = some p) :
    ∃ p', s'.line = some p' ∧ PlanLike R s.offset s'.offset p p' := by
  have hline := h.line
  rw [hp] at hline
  cases hp' : s'.line <;> rw [hp'] at hline <;> cases hline
  exact ⟨_, rfl, ‹_›⟩

lemma isEmpty_stack : s.stack.isEmpty = s'.stack.isEmpty := by
  have hstack := h.stack
  unfold IndentStack.isEmpty
  generalize s.stack.widths = ws, s'.stack.widths = ws' at hstack
  cases hstack <;> rfl

lemma line_of_some' {p' : LinePlan} (hp' : s'.line = some p') :
    ∃ p, s.line = some p ∧ PlanLike R s.offset s'.offset p p' := by
  have hline := h.line
  rw [hp'] at hline
  cases hp : s.line <;> rw [hp] at hline <;> cases hline
  exact ⟨_, rfl, ‹_›⟩

/-- Where nothing is planned but the text of the line, the same is true in the other text. -/
lemma idle (hidle : ∀ p, s.line = some p → p.dedents = 0 ∧ p.entry = .level) {p' : LinePlan}
    (hp' : s'.line = some p') : p'.dedents = 0 ∧ p'.entry = .level := by
  obtain ⟨p, hline, hp⟩ := h.line_of_some' hp'
  obtain ⟨hd, he⟩ := hidle p hline
  exact ⟨hp.dedents ▸ hd, hp.entry_eq_level he⟩

lemma blankless (hnone : ∀ p, s.line = some p → p.blankAt? s.offset = none) {p' : LinePlan}
    (hp' : s'.line = some p') : p'.blankAt? s'.offset = none := by
  obtain ⟨p, hline, hp⟩ := h.line_of_some' hp'
  exact hp.blank_eq_none (hnone p hline)

lemma pop : List.Forall₂ R.widths s.stack.pop.widths s'.stack.pop.widths := by
  rw [IndentStack.pop, IndentStack.pop, List.dropLast_eq_take, List.dropLast_eq_take,
    h.stack.length_eq]
  exact List.forall₂_take _ h.stack

lemma settle (mode : Mode) : Restyled R T T' (s.settle mode) (s'.settle mode) := by
  cases hm : mode.isIndentSensitive
  · rw [settle_of_insensitive s hm, settle_of_insensitive s' hm]
    exact h
  · have hend : s.lineStart = false → s.atUnterminatedEnd = s'.atUnterminatedEnd := fun hs => by
      rw [atUnterminatedEnd, atUnterminatedEnd, h.isEmpty_stack, (h.middle hs).isEmpty_dropBlanks]
    have heq : (s.lineStart || s.atUnterminatedEnd) = (s'.lineStart || s'.atUnterminatedEnd) := by
      cases hs : s.lineStart
      · rw [hend hs, ← h.lineStart, hs]
      · rw [← h.lineStart, hs, Bool.true_or, Bool.true_or]
    have hlines : (s.lineStart || s.atUnterminatedEnd) = true → Lines R s.rest s'.rest := by
      intro hstart
      cases hs : s.lineStart
      · rw [hs, Bool.false_or, atUnterminatedEnd, Bool.and_eq_true, List.isEmpty_iff] at hstart
        exact (h.middle hs).lines hstart.2
      · exact h.start hs
    rw [settle_of_sensitive s hm, settle_of_sensitive s' hm, ← heq, ← h.isNone_line]
    refine ⟨h.config, h.tabWidth, h.stack, rfl, hlines, fun hs => ?_, ?_, h.place, h.place'⟩
    · simp only [Bool.or_eq_false_iff] at hs
      exact h.middle hs.1
    · simp only
      split
      · next hplan =>
        rw [Bool.and_eq_true] at hplan
        rw [← h.config]
        exact .some (planLine_like h.tabWidth h.stack (hlines hplan.1) _ _)
      · exact h.line

/-- The next token starts at the same place of its line. -/
lemma body (mode : Mode) : Tail R (s.body mode) (s'.body mode) ∧
    (R.Tidy → (s.leading mode).map Trivia.kind = (s'.leading mode).map Trivia.kind) := by
  cases hs : s.lineStart
  · have hs' := h.lineStart.symm.trans hs
    have hgap := (h.middle hs).gap_eq mode.skipsBlanks mode.allowsComments
    have hlen : gapLength mode.skipsBlanks mode.allowsComments s'.rest =
        gapLength mode.skipsBlanks mode.allowsComments s.rest := by
      rw [gapLength, ← hgap]
      rfl
    rw [body_of_midLine s mode hs, body_of_midLine s' mode hs', hlen]
    simp only [leading, hs, hs', Bool.false_eq_true, if_false]
    exact ⟨(h.middle hs).drop (gapLength_le _ _ _), fun _ => by rw [hgap]⟩
  · have hs' := h.lineStart.symm.trans hs
    have hskipped := (h.start hs).skipped
    rw [body_of_lineStart s mode hs, body_of_lineStart s' mode hs']
    simp only [leading, hs, hs', if_true]
    exact ⟨hskipped.content, hskipped.kinds⟩

end Restyled

/-- What is taken from two scanners in step. -/
structure StepLike (R : Restyling) (T T' : Text) (n n' : Nat) (l l' : Lexed) (u u' : Scanner) :
    Prop where
  token : TokenLike R l.token l'.token
  error : l.error = l'.error
  range : RangeLike R T T' (l.token.range n) (l'.token.range n')
  behind : Restyled R T T' u u'

namespace Restyled

variable {T T' : Text} {s s' u u' : Scanner} {mode : Mode} {l l' : Lexed}

/-- A token of the text itself. -/
lemma content (h : Restyled R T T' s s') (mode : Mode) :
    (s.content mode).error = (s'.content mode).error ∧
      TokenLike R (s.content mode).token (s'.content mode).token ∧
      RangeLike R T T' ((s.content mode).token.range s.offset)
        ((s'.content mode).token.range s'.offset) ∧ (if (s.content mode).token.kind = .newline then
        Indented R (behind mode (s.body mode)) (behind mode (s'.body mode))
        else Tail R (behind mode (s.body mode)) (behind mode (s'.body mode))) := by
  obtain ⟨hbody, hleading⟩ := h.body mode
  have hplace := h.place
  have hplace' := h.place'
  have hconcat := concat_leading s mode
  have hconcat' := concat_leading s' mode
  rw [content_token, content_token, content_eq_body, content_eq_body]
  generalize s.body mode = t, s'.body mode = t' at hbody hconcat hconcat'
  rcases hbody.next_cases mode with ⟨heq, hle, hk⟩ | ⟨b, b', r, r', hends, h1, h2⟩
  · have hbehind := hbody.drop hle
    have htrail := hbehind.trailing_eq mode (Lexeme.next mode t).kind
    have htake := hbody.take_eq hle
    rw [behind, behind, ← heq, ← htrail, ← htake]
    refine ⟨rfl, .ofParts _ hleading (.inr ⟨hk, rfl⟩), ?_, ?_⟩
    · refine .ofParts hplace hplace' _ ?_ ?_ ?_ (.inr hbehind)
      · rw [List.take_append_drop, hconcat]
      · rw [htake, List.take_append_drop, hconcat']
      · rw [List.take_append_drop, htake, List.take_append_drop]
        exact hbody
    · simp only [Token.ofParts, hk, if_false]
      exact hbehind.drop (concat_trailing mode _ _).2
  · obtain ⟨rfl, rfl, hbreaks, -, -, hrest⟩ := hends
    rw [behind, behind, h1, h2]
    simp only [trailing_newline, List.take_left, List.drop_left, Trivia.concat_nil, List.length_nil,
      List.drop_zero]
    exact ⟨trivial, .ofParts [] hleading (.inl ⟨rfl, hbreaks⟩),
      .ofParts hplace hplace' .newline hconcat hconcat' hbody (.inl (.inl hrest)), by
        rwa [if_pos (show (Token.ofParts _ Kind.newline b []).kind = .newline from rfl)]⟩

/-- **One step**: two scanners in step take the same token, up to its layout, and stay in step. -/
lemma takes (h : Restyled R T T' s s') (hs : s.Sane) (hs' : s'.Sane) (ht : Takes s mode l u)
    (ht' : Takes s' mode l' u') : StepLike R T T' s.offset s'.offset l l' u u' := by
  have hplace := ht.standsAt h.place
  have hplace' := ht'.standsAt h.place'
  cases ht with
  | dedent p hline hd =>
    obtain ⟨p', hline', hp⟩ := h.line_of_some hline
    obtain ⟨rfl, rfl⟩ := ht'.unique (.dedent p' hline' (hp.dedents ▸ hd))
    refine ⟨.of_eq rfl (by simp), rfl,
      ⟨⟨_, _, h.place, h.place', h.rest⟩, ⟨_, _, h.place, h.place', h.rest⟩⟩,
      h.config, h.tabWidth, h.pop, h.lineStart, h.start, h.middle, .some ⟨?_, hp.blank, hp.entry⟩,
      h.place, h.place'⟩
    simp only [hp.dedents]
  | blank p b t hm hline hd hb hlead hrest =>
    obtain ⟨p', hline', hp⟩ := h.line_of_some hline
    have hstart := (hs.plan p hline).lineStart
    obtain ⟨r', hr'⟩ := hp.blank_eq_some hb
    obtain ⟨b', hlead', rfl⟩ := (hs'.plan p' hline').blankAt? hr'
    obtain ⟨t', -, hrest', -, -⟩ := leadingBlankLine?_spec hlead'
    obtain ⟨rfl, rfl⟩ := ht'.unique (.blank p' b' t' hm hline' (hp.dedents ▸ hd) hr' hlead' hrest')
    have hlines : Lines R t t' := (h.start hstart).skipped.behind hlead hlead' hrest hrest'
    refine ⟨⟨rfl, by simp, by simp, fun _ => rfl, rfl⟩, rfl,
      ⟨⟨_, _, h.place, h.place', h.rest⟩, ⟨t, t', hplace, hplace', .inl hlines⟩⟩,
      h.config, h.tabWidth, h.stack, h.lineStart, fun _ => hlines, fun hm => ?_,
      .some ⟨hp.dedents, rfl, hp.entry⟩, hplace, hplace'⟩
    simp [hstart] at hm
  | indent p w hline hd he hnone =>
    obtain ⟨p', hline', hp⟩ := h.line_of_some hline
    have hstart := (hs.plan p hline).lineStart
    have hskipped := (h.start hstart).skipped
    obtain ⟨w', he', hw⟩ := hp.entry_eq_deeper he
    obtain ⟨rfl, rfl⟩ := ht'.unique
      (.indent p' w' hline' (hp.dedents ▸ hd) he' fun hm => hp.blank_eq_none (hnone hm))
    have hlines := hskipped.content.indented (unspaced_contentOf _)
    refine ⟨.ofParts [] hskipped.kinds (.inr ⟨by simp, rfl⟩), rfl, ?_, h.config, h.tabWidth,
      List.rel_append h.stack (.cons hw .nil), h.lineStart, fun _ => .inl hlines, fun hm => ?_,
      .some ⟨hp.dedents, ?_, .level⟩, hplace, hplace'⟩
    · exact .ofParts h.place h.place' .indent (concat_lineTrivia _) (concat_lineTrivia _)
        hskipped.content (.inr hskipped.content)
    · simp [hstart] at hm
    · have hpassed := Takes.blankAt?_indent hs hline he
      have hpassed' := Takes.blankAt?_indent hs' hline' he'
      rw [LinePlan.blankAt?] at hpassed hpassed'
      simp only [LinePlan.blankAt?, hpassed, hpassed']
  | mismatch p l hline hd he hl hnone =>
    obtain ⟨p', hline', hp⟩ := h.line_of_some hline
    have hstart := (hs.plan p hline).lineStart
    have hskipped := (h.start hstart).skipped
    obtain ⟨rfl, rfl⟩ :=
      ht'.unique (.mismatch p' _ hline' (hp.dedents ▸ hd) (hp.entry_eq_mismatch he)
      rfl fun hm => hp.blank_eq_none (hnone hm))
    subst hl
    have hline := hskipped.content.firstLine_eq
    have hdrop : Tail R ((contentOf s.rest).drop (firstLine (contentOf s.rest)).length)
        ((contentOf s'.rest).drop (firstLine (contentOf s'.rest)).length) := by
      rw [← hline]
      exact hskipped.content.drop le_rfl
    refine ⟨.ofParts [] hskipped.kinds (.inr ⟨by simp, hline⟩), rfl, ?_, h.config, h.tabWidth,
      h.stack, rfl, by simp, fun _ => ?_, .none, hplace, hplace'⟩
    · refine .ofParts h.place h.place' .errorToken ?_ ?_ ?_ (.inr hdrop)
      · rw [firstLine_append_drop, concat_lineTrivia]
      · rw [firstLine_append_drop, concat_lineTrivia]
      · rw [firstLine_append_drop, firstLine_append_drop]
        exact hskipped.content
    · exact hdrop
  | content l hidle hnone hl =>
    obtain ⟨rfl, rfl⟩ := ht'.unique (.content _ (fun _ hp => h.idle hidle hp)
      (fun hm _ hp => h.blankless (hnone hm) hp) rfl)
    subst hl
    obtain ⟨herror, htoken, hrange, hbehind⟩ := h.content mode
    refine ⟨htoken, herror, hrange, h.config, h.tabWidth, h.stack, ?_, fun hn => ?_,
      fun hn => ?_, .none, hplace, hplace'⟩
    · simp only [htoken.kind]
    · simp only [decide_eq_true_eq] at hn
      rw [if_pos hn] at hbehind
      exact .inl hbehind
    · simp only [decide_eq_false_iff_not] at hn
      rwa [if_neg hn] at hbehind

section
variable (h : Restyled R T T' s s') (hs : s.Good) (hs' : s'.Good) (mode : Mode)
include h

lemma setPeeked (o o' : Option Lexed) :
    Restyled R T T' { s with peeked := o } { s' with peeked := o' } :=
  ⟨h.config, h.tabWidth, h.stack, h.lineStart, h.start, h.middle, h.line, h.place, h.place'⟩

lemma setDiagnostics (ds ds' : List Diagnostic) :
    Restyled R T T' { s with diagnostics := ds } { s' with diagnostics := ds' } :=
  ⟨h.config, h.tabWidth, h.stack, h.lineStart, h.start, h.middle, h.line, h.place, h.place'⟩

lemma looking : Restyled R T T' (s.looking mode) (s'.looking mode) := (h.settle mode).setPeeked _ _

include hs hs'

lemma ahead : StepLike R T T' s.offset s'.offset (s.ahead mode) (s'.ahead mode) (s.after mode)
    (s'.after mode) := by
  have hstep :=
    (h.settle mode).takes (hs.settle mode) (hs'.settle mode) (hs.takes mode) (hs'.takes mode)
  rwa [settle_offset, settle_offset] at hstep

lemma commandAhead_eq : s.commandAhead mode = s'.commandAhead mode := by
  have hkind := (h.ahead hs hs' mode).token.kind
  by_cases hk : (s.ahead mode).token.kind = .commandStart
  · obtain ⟨hfits, heq⟩ := hs.commandAhead_eq hk
    obtain ⟨-, heq'⟩ := hs'.commandAhead_eq (hkind ▸ hk)
    have hbody := ((h.settle mode).body mode).1
    rcases hbody.next_cases mode with ⟨hnext, hle, -⟩ | ⟨b, b', r, r', -, hnext, -⟩
    · rw [heq, heq', ← hnext]
      exact (hbody.drop hle).commandKeywordAt?_eq
    · have := hfits.plain.newline
      simp [hnext] at this
  · rw [commandAhead, commandAhead, if_neg hk, if_neg (hkind ▸ hk)]

end

end Restyled

end Scanner

end DialogueScript
