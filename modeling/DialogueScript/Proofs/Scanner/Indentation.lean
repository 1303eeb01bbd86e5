import DialogueScript.Proofs.Scanner.Calls
import DialogueScript.Proofs.Scanner.Closing
import DialogueScript.Proofs.Scanner.Errors

/-!
The open blocks follow the indentation of the lines. A line is compared with the blocks that were
open behind the line before it, and what comes out is paid in one token after the other, in any
modes. When the first token of the line's own text is taken where statements stand, the innermost
open block is as wide as the line, unless the line closes all blocks or fits to none of them; the
scanner never settles for a width near by.
-/

namespace DialogueScript

namespace IndentStack

/-- The blocks that stay open, and the one that is opened, on a line of the given width. -/
def onLine (s : IndentStack) (width : Nat) : IndentStack :=
  if s.top < width then s.push width else ⟨s.kept width⟩

/-- The blocks without the innermost ones. -/
def closed (s : IndentStack) (n : Nat) : IndentStack := ⟨s.widths.take (s.depth - n)⟩

@[simp] lemma closed_zero (s : IndentStack) : s.closed 0 = s := by
  simp [closed, depth]

lemma closed_pop {s : IndentStack} {n : Nat} (hn : 0 < n) : s.pop.closed (n - 1) = s.closed n := by
  have hlen : s.pop.depth - (n - 1) = s.depth - n := by
    simp only [depth, pop, List.length_dropLast]
    omega
  rw [closed, closed, hlen, pop, List.dropLast_eq_take, List.take_take, Nat.min_eq_left]
  rw [depth]
  omega

lemma closed_kept (s : IndentStack) (width : Nat) :
    s.closed (s.depth - (s.kept width).length) = ⟨s.kept width⟩ := by
  have hpre : s.kept width <+: s.widths := List.takeWhile_prefix _
  have hle := hpre.length_le
  rw [closed, depth, Nat.sub_sub_self hle, ← List.prefix_iff_eq_take.1 hpre]

@[simp] lemma top_push (s : IndentStack) (width : Nat) : (s.push width).top = width := by
  simp [top, push]

section
variable {s : IndentStack} (h : s.Rising) {width : Nat}
include h

/-- If the innermost block is not wider than the line, all blocks stay open. -/
lemma Rising.kept_eq (hle : s.top ≤ width) : s.kept width = s.widths := by
  rw [kept, List.takeWhile_eq_self_iff]
  intro w hw
  exact decide_eq_true ((h.le_top hw).trans hle)

/-- On a line that is as wide as an open block, or not indented, that block is the innermost one
that stays open. -/
lemma Rising.getLastD_kept (hw : width = 0 ∨ width ∈ s.widths) :
    (s.kept width).getLastD 0 = width := by
  unfold Rising at h
  unfold kept
  generalize s.widths = ws at h hw
  rcases hw with rfl | hw
  · rcases ws with _ | ⟨w, ws⟩
    · rfl
    · have hpos : 0 < w := (List.pairwise_cons.1 h).1 w List.mem_cons_self
      rw [List.takeWhile_cons_of_neg (by simpa using hpos.ne')]
      rfl
  · obtain ⟨outer, inner, rfl⟩ := List.append_of_mem hw
    have hws := (List.pairwise_cons.1 h).2
    have houter : ∀ w ∈ outer, w ≤ width :=
      fun w hw => ((List.pairwise_append.1 hws).2.2 w hw width List.mem_cons_self).le
    have hinner : ∀ w ∈ inner, width < w :=
      (List.pairwise_cons.1 (List.pairwise_append.1 hws).2.1).1
    have hrest : inner.takeWhile (fun w => decide (w ≤ width)) = [] := by
      rcases inner with _ | ⟨w, inner⟩
      · rfl
      · exact List.takeWhile_cons_of_neg (by simpa using hinner w List.mem_cons_self)
    rw [List.takeWhile_append_of_pos (by simpa using houter), List.takeWhile_cons_of_pos (by simp),
      hrest, List.getLastD_concat]

end

lemma getLastD_kept_le (s : IndentStack) (width : Nat) : (s.kept width).getLastD 0 ≤ width := by
  rcases (s.kept width).eq_nil_or_concat with hnil | ⟨ws, w, hws⟩
  · rw [hnil]
    exact Nat.zero_le _
  · have hmem : w ∈ s.kept width := by simp [hws]
    rw [hws, List.concat_eq_append, List.getLastD_concat]
    simpa using List.mem_takeWhile_imp hmem

/-- A line that some blocks are wider than is not wider than all of them. -/
lemma Rising.lt_top {s : IndentStack} (h : s.Rising) {width : Nat}
    (hlt : (s.kept width).length < s.depth) : width < s.top := by
  by_contra hle
  have hkept := h.kept_eq (Nat.le_of_not_lt hle)
  rw [hkept, depth] at hlt
  exact absurd hlt (Nat.lt_irrefl _)

end IndentStack

namespace Text

/-- What ends with whole lines ends the text that they stand behind. -/
lemma isTerminated_append {t u : Text} (ht : u = [] → isTerminated t = true)
    (hu : isTerminated u = true) : isTerminated (t ++ u) = true := by
  rcases u.eq_nil_or_concat with rfl | ⟨u, c, rfl⟩
  · simpa using ht rfl
  · rw [List.concat_eq_append] at hu ⊢
    simpa [isTerminated, ← List.append_assoc] using hu

lemma not_isTerminated_append {t u : Text} (hu : ∀ c ∈ u, isLineBreak c = false) (hne : u ≠ []) :
    isTerminated (t ++ u) = false := by
  rcases u.eq_nil_or_concat with rfl | ⟨u, c, rfl⟩
  · exact absurd rfl hne
  · have hc := hu c (by simp)
    rw [List.concat_eq_append]
    simpa [isTerminated, ← List.append_assoc] using hc

lemma take_lineBreak?_isTerminated {t : Text} {n : Nat} (h : lineBreak? t = some n) :
    isTerminated (t.take n) = true ∧ t.take n ≠ [] := by
  unfold lineBreak? at h
  split at h <;> simp at h <;> subst h <;> simp [isTerminated, isLineBreak]

end Text

/-! ### The indentation of a line -/

/-- Nothing but blanks stands between the start of a line and its content. -/
lemma gap_of_content {t : Text} (hbreak : Text.lineBreak? (t.drop (gapLength true true t)) = none)
    (hne : t.drop (gapLength true true t) ≠ []) : gap true true t = blankTrivia t := by
  have hrest : t.drop (Trivia.concat (blankTrivia t)).length = t.dropWhile isBlank := by
    have := List.takeWhile_append_dropWhile (p := isBlank) (l := t)
    rw [concat_blankTrivia]
    generalize t.takeWhile isBlank = u, t.dropWhile isBlank = w at this
    rw [← this, List.drop_left]
  have hcomment : Text.startsComment (t.dropWhile isBlank) = false := by
    by_contra hc
    rw [Bool.not_eq_false] at hc
    -- behind a comment there is the end of the line
    have hdrop : t.drop (gapLength true true t) =
        (t.dropWhile isBlank).drop (Text.firstLine (t.dropWhile isBlank)).length := by
      rw [← hrest, List.drop_drop, hrest]
      simp [gapLength, gap, hrest, commentTrivia, hc]
    rw [hdrop] at hbreak hne
    have := Text.lineBreak?_drop_firstLine _ hne
    simp [hbreak] at this
  simp [gap, hrest, commentTrivia, hcomment]

/-- What is skipped in front of a line with content: whole lines, and the blanks of that line. -/
lemma exists_lines (t : Text) (hne : contentOf t ≠ []) : ∃ lines,
    Trivia.concat (lineTrivia t) = lines ++ indentationOf (lineTrivia t) ∧
      Text.isTerminated lines = true ∧ (indentationOf (lineTrivia t)).all isBlank = true := by
  induction t using skipped_induction with
  | here t h =>
    rw [contentOf_of_none h] at hne
    rw [lineTrivia_of_none h, gap_of_content h hne]
    rw [concat_blankTrivia, indentationOf_blankTrivia]
    exact ⟨[], rfl, rfl, List.all_takeWhile⟩
  | skip t n h ih =>
    rw [contentOf_of_some h] at hne
    obtain ⟨lines, hlines, hterm, hblanks⟩ := ih hne
    obtain ⟨hbreak, hnil⟩ := Text.take_lineBreak?_isTerminated h
    have hindent : indentationOf (lineTrivia t) =
        indentationOf (lineTrivia ((t.drop (gapLength true true t)).drop n)) := by
      rw [lineTrivia_of_some h]
      generalize lineTrivia ((t.drop (gapLength true true t)).drop n) = ps
      rcases ps with _ | ⟨p, ps⟩
      · simp [indentationOf]
      · simp only [indentationOf]
        rw [List.getLast?_append, List.getLast?_cons_cons]
        simp [List.getLast?_cons]
    rw [hindent]
    refine ⟨Trivia.concat (gap true true t) ++ (t.drop (gapLength true true t)).take n ++ lines, ?_,
      Text.isTerminated_append (fun _ => Text.isTerminated_append (absurd · hnil) hbreak) hterm,
      hblanks⟩
    rw [lineTrivia_of_some h, Trivia.concat_append, Trivia.concat_cons, hlines]
    simp

/-! ### Plans -/

/-- Carrying out what is left of a plan leads to the blocks of a line of the given width, where
`blocks` were open before the line. -/
inductive LeadsTo (blocks : IndentStack) (width : Nat) (stack : IndentStack) (p : LinePlan) :
    Prop where
  | level : p.entry = .level → stack.closed p.dedents = blocks.onLine width →
      (blocks.onLine width).top = width → LeadsTo blocks width stack p
  | deeper : p.entry = .deeper width →
      (stack.closed p.dedents).push width = blocks.onLine width → LeadsTo blocks width stack p
  | mismatch : p.entry = .mismatch → stack.closed p.dedents = blocks.onLine width →
      width < blocks.top → width ≠ 0 → width ∉ blocks.widths → LeadsTo blocks width stack p

/-- A plan of which more blocks have been closed leads to the same blocks. -/
lemma LeadsTo.step {blocks stack stack' : IndentStack} {width : Nat} {p q : LinePlan}
    (h : LeadsTo blocks width stack p) (hentry : q.entry = p.entry)
    (hstack : stack'.closed q.dedents = stack.closed p.dedents) :
    LeadsTo blocks width stack' q := by
  cases h with
  | level he hs htop => exact .level (hentry.trans he) (hstack.trans hs) htop
  | deeper he hs => exact .deeper (hentry.trans he) (by rw [hstack, hs])
  | mismatch he hs h1 h2 h3 => exact .mismatch (hentry.trans he) (hstack.trans hs) h1 h2 h3

/-- Where the line's own block has been opened, nothing is left to do. -/
lemma LeadsTo.opened {blocks stack : IndentStack} {width w : Nat} {p q : LinePlan}
    (h : LeadsTo blocks width stack p) (he : p.entry = .deeper w) (hd : p.dedents = 0)
    (hq : q.entry = .level) (hd' : q.dedents = 0) : LeadsTo blocks width (stack.push w) q := by
  cases h with
  | level he' => simp [he'] at he
  | mismatch he' => simp [he'] at he
  | deeper he' hs =>
    obtain rfl : w = width := by simpa [he'] using he.symm
    rw [hd, IndentStack.closed_zero] at hs
    exact .level hq (by rw [hd', IndentStack.closed_zero, hs]) (by rw [← hs, IndentStack.top_push])

/-- **The plan of a line** leads to the blocks of the line. -/
lemma leadsTo_planLine (config : Config) {stack : IndentStack} (h : stack.Rising) (offset : Nat)
    {t : Text} (hcloses : closesBlocks (contentOf t) = false) :
    LeadsTo stack (IndentStack.measure config.tabWidth (indentationOf (lineTrivia t))) stack
      (planLine config stack offset t) := by
  simp only [planLine_eq, lineEntry, hcloses, Bool.false_eq_true, if_false]
  generalize IndentStack.measure config.tabWidth (indentationOf (lineTrivia t)) = width
  have hclosed := stack.closed_kept width
  have hpre : stack.kept width <+: stack.widths := List.takeWhile_prefix _
  have hle := stack.getLastD_kept_le width
  split_ifs with hmismatch hdeeper
  · -- some blocks are wider than the line, and none is as wide
    simp only [Bool.and_eq_true, decide_eq_true_eq] at hmismatch
    obtain ⟨hlt, hne⟩ := hmismatch
    have htop : width < stack.top := h.lt_top (by omega)
    have honLine : stack.onLine width = ⟨stack.kept width⟩ := if_neg (by omega)
    refine .mismatch rfl (by rw [hclosed, honLine]) htop ?_ ?_
    · exact fun hzero => hne (h.getLastD_kept (.inl hzero))
    · exact fun hmem => hne (h.getLastD_kept (.inr hmem))
  · -- no block is wider than the line
    have hzero : stack.depth - (stack.kept width).length = 0 := by
      simp only [Bool.and_eq_true, decide_eq_true_eq, not_and, not_not] at hmismatch
      by_contra hpos
      have := hmismatch (by omega)
      omega
    have hkept : stack.kept width = stack.widths := by
      refine hpre.eq_of_length (le_antisymm hpre.length_le ?_)
      rw [IndentStack.depth] at hzero
      omega
    refine .deeper rfl ?_
    rw [hzero, IndentStack.closed_zero]
    rw [hkept] at hdeeper
    exact (if_pos hdeeper).symm
  · -- the innermost block that stays open is as wide as the line
    have hlast : (stack.kept width).getLastD 0 = width := by omega
    have honLine : stack.onLine width = ⟨stack.kept width⟩ := by
      refine if_neg fun htop => ?_
      rw [h.kept_eq htop.le] at hlast
      exact absurd hlast htop.ne
    exact .level rfl (by rw [hclosed, honLine]) (by rw [honLine]; exact hlast)

/-! ### Keeping track of a line -/

/-- At a line that closes all blocks stands a token that says so. -/
lemma kind_of_closesBlocks {mode : Mode} (hm : mode.isIndentSensitive = true) {t : Text}
    (hbreak : Text.lineBreak? t = none) (h : closesBlocks t = true) :
    (Lexeme.next mode t).kind = .bodyEnd ∨ (Lexeme.next mode t).kind = .titleKw ∨
      (Lexeme.next mode t).kind = .eof := by
  by_cases hnil : t = []
  · subst hnil
    rw [Lexeme.next_nil]
    exact .inr (.inr rfl)
  · have hnext : Lexeme.next mode t = Lexeme.statement t := by
      cases mode <;> simp [Mode.isIndentSensitive] at hm <;> simp [Lexeme.next, hnil, hbreak]
    rw [hnext]
    cases hend : Text.startsWith t "==="
    · have htitle : headerKeyword? t = some .titleKw := by
        simpa [closesBlocks, hnil, hend] using h
      rw [Lexeme.statement_of_headerKeyword? htitle]
      exact .inr (.inl rfl)
    · have hspelled : Lexeme.spelledAt? [.bodyEnd] t = some (.spelled .bodyEnd) := by
        have hpre : Kind.bodyEnd.chars.isPrefixOf t = true := hend
        simp [Lexeme.spelledAt?, hpre]
      rw [Lexeme.statement, hspelled]
      exact .inl rfl

namespace Scanner

/-- The blocks that a line is compared with are those that are open behind the last token of the
text before it. Tokens that the indentation asks for belong to the line that they stand in front
of. -/
def blocksBehind (blocks : IndentStack) (token : Token) (s : Scanner) : IndentStack :=
  if token.kind.isStructural then blocks else s.stack

/-- What a scanner knows of the line it stands in, where `before` is the text it has consumed and
`blocks` were open before the line. -/
structure Tracks (config : Config) (before : Text) (blocks : IndentStack) (s : Scanner) : Prop where
  sameConfig : s.config = config
  midLine : s.lineStart = false →
    s.line = none ∧ s.stack = blocks ∧ (s.rest = [] ∨ Text.isTerminated before = false)
  fresh : s.lineStart = true → s.line = none → s.stack = blocks ∧ Text.isTerminated before = true
  closing : s.ClosesAll
  planned : ∀ p, s.line = some p → closesBlocks (contentOf s.rest) = false → ∃ lines indentation,
    before ++ Trivia.concat (lineTrivia s.rest) = lines ++ indentation ∧
      Text.isTerminated lines = true ∧ indentation.all isBlank = true ∧
      LeadsTo blocks (IndentStack.measure config.tabWidth indentation) s.stack p

section
variable {config : Config} {before : Text} {blocks : IndentStack} {s s' : Scanner} {mode : Mode}
  {l : Lexed}

lemma Tracks.setOutput (h : Tracks config before blocks s) (o : Option Lexed)
    (ds : List Diagnostic) :
    Tracks config before blocks { s with peeked := o, diagnostics := ds } :=
  ⟨h.sameConfig, h.midLine, h.fresh, h.closing, h.planned⟩

lemma Tracks.settle (h : Tracks config before blocks s) (hs : s.stack.Rising) (mode : Mode) :
    Tracks config before blocks (s.settle mode) := by
  have hclosing := h.closing.settle mode
  cases hm : mode.isIndentSensitive
  · rwa [settle_of_insensitive s hm]
  · rw [settle_of_sensitive s hm] at hclosing ⊢
    rcases hline : s.line with _ | p
    · cases hstart : s.lineStart
      · cases hend : s.atUnterminatedEnd
        · simp only [hstart, hend, hline, Bool.or_self, Bool.false_and] at hclosing ⊢
          exact ⟨h.sameConfig, fun _ => ⟨rfl, (h.midLine hstart).2⟩, by simp, hclosing, by simp⟩
        · -- the end of the text starts a line that closes all blocks
          simp only [hstart, hend, hline, Bool.or_true, Bool.true_and, Option.isNone_none,
            if_true] at hclosing ⊢
          refine ⟨h.sameConfig, by simp, by simp, hclosing, fun p _ hcloses => ?_⟩
          simp only [atUnterminatedEnd, Bool.and_eq_true, List.isEmpty_iff] at hend
          have hdrop := drop_gapLength_of_blank hend.2
          rw [contentOf_of_none (by rw [hdrop]; rfl), hdrop] at hcloses
          simp [closesBlocks] at hcloses
      · obtain ⟨hstack, hterm⟩ := h.fresh hstart hline
        simp only [hstart, hline, Bool.true_or, Bool.true_and, Option.isNone_none,
          if_true] at hclosing ⊢
        refine ⟨h.sameConfig, by simp, by simp, hclosing, ?_⟩
        rintro p ⟨⟩ hcloses
        have hne : contentOf s.rest ≠ [] := by
          intro hnil
          simp [hnil, closesBlocks] at hcloses
        obtain ⟨lines, hlines, hlterm, hblanks⟩ := exists_lines s.rest hne
        refine ⟨before ++ lines, indentationOf (lineTrivia s.rest), ?_,
          Text.isTerminated_append (fun _ => hterm) hlterm, hblanks, ?_⟩
        · rw [hlines, List.append_assoc]
        · have := leadsTo_planLine s.config hs s.offset hcloses
          rwa [hstack, h.sameConfig] at this ⊢
    · have hstart : s.lineStart = true := by
        by_contra hfalse
        have := (h.midLine (by simpa using hfalse)).1
        simp [hline] at this
      simp only [hstart, hline, Bool.true_or, Option.isNone_some, Bool.and_false,
        Bool.false_eq_true, if_false] at hclosing ⊢
      exact ⟨h.sameConfig, by simp, by simp, hclosing, fun q hq => h.planned q (hline.trans hq)⟩

/-- Behind a token of the text a line starts if the token is a line break; otherwise the text is
over or the token is not. -/
lemma content_ends (s : Scanner) (mode : Mode) (before : Text) :
    ((s.content mode).token.kind = .newline →
      Text.isTerminated (before ++ (s.content mode).token.fullText) = true) ∧
    ((s.content mode).token.kind ≠ .newline → behind mode (s.body mode) = [] ∨
      Text.isTerminated (before ++ (s.content mode).token.fullText) = false) := by
  rw [content_token]
  have hread := reading_next mode (s.body mode)
  generalize Lexeme.next mode (s.body mode) = x, behind mode (s.body mode) = t' at hread
  cases hread with
  | eof => exact ⟨by simp [Token.ofParts], fun _ => .inl rfl⟩
  | newline n hn =>
    obtain ⟨hterm, hne⟩ := Text.take_lineBreak?_isTerminated hn
    refine ⟨fun _ => ?_, fun hne => absurd rfl hne⟩
    simp only [Token.ofParts, trailing_newline, Trivia.concat_nil, List.append_nil]
    rw [← List.append_assoc]
    exact Text.isTerminated_append (absurd · hne) hterm
  | plain _ _ hne hbreak hfits =>
    refine ⟨fun hk => absurd hk hfits.plain.newline, fun _ => .inr ?_⟩
    -- the token and its trailing trivia are a part of the first line
    have htrail := concat_trailing mode x.kind ((s.body mode).drop x.length)
    have hfirst : (s.body mode).take x.length ++
        Trivia.concat (trailing mode x.kind ((s.body mode).drop x.length)) <+:
          Text.firstLine (s.body mode) := by
      rw [← List.take_append_drop x.length (Text.firstLine (s.body mode)),
        ← Text.firstLine_drop hfits.le]
      have htake : (Text.firstLine (s.body mode)).take x.length = (s.body mode).take x.length := by
        have hpre : Text.firstLine (s.body mode) <+: s.body mode := List.takeWhile_prefix _
        rw [List.prefix_iff_eq_take.1 hpre, List.take_take, Nat.min_eq_left hfits.le]
      rw [htake, List.prefix_append_right_inj]
      refine List.prefix_of_prefix_length_le htrail.1 (List.takeWhile_prefix _) htrail.2
    simp only [Token.ofParts]
    rw [List.append_assoc (Trivia.concat _), ← List.append_assoc before]
    refine Text.not_isTerminated_append (fun c hc => ?_) ?_
    · exact Text.isLineBreak_of_mem_firstLine (hfirst.subset hc)
    · have := hfits.pos
      exact fun hnil => hne ((List.take_eq_nil_iff.1 (List.append_eq_nil_iff.1 hnil).1).resolve_left
        (by omega))

/-- **One token**: taking it keeps track of the line. -/
lemma Takes.tracks (hs : s.Sane) (ht : Takes s mode l s') (h : Tracks config before blocks s) :
    Tracks config (before ++ l.token.fullText) (blocksBehind blocks l.token s') s' := by
  have hclosing := ht.closesAll h.closing
  cases ht with
  | dedent p hline hd =>
    have hstart := (hs.plan p hline).lineStart
    refine ⟨h.sameConfig, by simp [hstart], by simp, hclosing, ?_⟩
    rintro _ ⟨⟩ hcloses
    obtain ⟨lines, indentation, htext, hterm, hblanks, hleads⟩ := h.planned p hline hcloses
    refine ⟨lines, indentation, by simpa using htext, hterm, hblanks, hleads.step rfl ?_⟩
    exact IndentStack.closed_pop hd
  | blank p b t' hm hline hd hb hlead hrest =>
    have hfits := hs.plan p hline
    obtain ⟨t'', -, hrest', hcontent, -⟩ := leadingBlankLine?_spec hlead
    obtain rfl : t' = t'' := List.append_cancel_left (hrest.symm.trans hrest')
    refine ⟨h.sameConfig, by simp [hfits.lineStart], by simp, hclosing, ?_⟩
    rintro _ ⟨⟩ hcloses
    obtain ⟨lines, indentation, htext, hterm, hblanks, hleads⟩ :=
      h.planned p hline (by rw [hcontent]; exact hcloses)
    refine ⟨lines, indentation, ?_, hterm, hblanks, hleads.step rfl rfl⟩
    -- the blank line is the first of the lines that are skipped
    rw [← htext, concat_lineTrivia_append hrest hcontent, ← List.append_assoc]
    rfl
  | indent p w hline hd he =>
    have hstart := (hs.plan p hline).lineStart
    refine ⟨h.sameConfig, by simp [hstart], by simp, hclosing, ?_⟩
    rintro _ ⟨⟩ hcloses
    obtain ⟨lines, indentation, htext, hterm, hblanks, hleads⟩ :=
      h.planned p hline (by rwa [← contentOf_contentOf])
    refine ⟨lines, indentation, ?_, hterm, hblanks, hleads.opened he hd rfl hd⟩
    rw [lineTrivia_contentOf, ← htext]
    simp [Token.ofParts]
  | mismatch p _ hline hd he hl =>
    subst hl
    refine ⟨h.sameConfig, fun _ => ⟨rfl, ?_, .inr ?_⟩, by simp, hclosing, by simp⟩
    · simp [blocksBehind, Token.ofParts, Kind.isStructural]
    have hne := (hs.plan p hline).mismatch he
    have hbreak := lineBreak?_contentOf s.rest
    simp only [Token.token_placed, Token.ofParts, Trivia.concat_nil, List.append_nil]
    rw [← List.append_assoc]
    refine Text.not_isTerminated_append (fun c hc => Text.isLineBreak_of_mem_firstLine hc) ?_
    rcases hcontent : contentOf s.rest with _ | ⟨c, cs⟩
    · exact absurd hcontent hne
    · rw [hcontent] at hbreak
      rw [Text.firstLine_cons cs (Text.lineBreak?_eq_none hbreak)]
      simp
  | content _ hidle hblank hl =>
    subst hl
    obtain ⟨hnewline, hother⟩ := content_ends s mode before
    have hstack : blocksBehind blocks (s.content mode).token s = s.stack := by
      simp [blocksBehind, content_not_structural]
    refine ⟨h.sameConfig, fun hk => ⟨rfl, hstack.symm, hother (by simpa using hk)⟩,
      fun hk _ => ⟨hstack.symm, ?_⟩, hclosing, by simp⟩
    exact hnewline (by simpa using hk)

end

/-! ### Any calls -/

/-- The blocks that were open before the line in which a scanner stands after some calls, if they
were `blocks` before the line in which it starts. -/
def lineBlocks (s : Scanner) (blocks : IndentStack) : List Call → IndentStack
  | [] => blocks
  | .bump mode :: cs =>
    (s.bump mode).2.lineBlocks (blocksBehind blocks (s.bump mode).1.token (s.bump mode).2) cs
  | .bumpRest :: cs => s.bumpRest.2.lineBlocks .empty cs
  | c :: cs => (s.call c).2.lineBlocks blocks cs

/-- Any number of calls keeps track of the line. -/
lemma Tracks.calls {config : Config} {before : Text} {blocks : IndentStack} {s : Scanner}
    (h : Tracks config before blocks s)
    (hs : s.Good) (cs : List Call) :
    Tracks config (before ++ (s.calls cs).1.flatMap (·.token.fullText)) (s.lineBlocks blocks cs)
      (s.calls cs).2 := by
  induction cs generalizing before blocks s with
  | nil => simpa [Scanner.calls, lineBlocks] using h
  | cons c cs ih =>
    have hpeek : ∀ mode, Tracks config before blocks (s.looking mode) :=
      fun mode => (h.settle hs.rising mode).setOutput _ (s.settle mode).diagnostics
    cases c with
    | bump mode =>
      have htakes := (hs.takes mode).tracks (hs.settle mode) (h.settle hs.rising mode)
      have hrest := ih htakes (hs.after mode)
      simpa [Scanner.calls, call, lineBlocks, hs.bump_eq, List.append_assoc] using hrest
    | peek mode =>
      have hrest := ih (hpeek mode) (hs.looking mode)
      simpa [Scanner.calls, call, lineBlocks, hs.peek_eq] using hrest
    | peekCommandKeyword mode =>
      have hrest := ih (hpeek mode) (hs.looking mode)
      simpa [Scanner.calls, call, lineBlocks, hs.peekCommandKeyword_eq] using hrest
    | takeDiagnostics => exact ih (h.setOutput s.peeked []) (hs.setDiagnostics [])
    | bumpRest =>
      have hdone : Tracks config (before ++ s.rest) .empty s.bumpRest.2 := by
        by_cases hnil : s.rest = []
        · rw [bumpRest_of_nil hnil]
          refine ⟨?_, ?_, ?_, ?_, ?_⟩ <;> simp [hnil, h.sameConfig, ClosesAll]
        · rw [bumpRest_of_ne_nil hnil]
          refine ⟨?_, ?_, ?_, ?_, ?_⟩ <;> simp [h.sameConfig, ClosesAll]
      have htext : (s.bumpRest.1.toList.flatMap (·.token.fullText)) = s.rest := by
        by_cases hnil : s.rest = []
        · simp [bumpRest_of_nil hnil, hnil]
        · simp [bumpRest_of_ne_nil hnil]
      have hrest := ih hdone (good_bumpRest s)
      simp only [Scanner.calls, call, lineBlocks, List.flatMap_append, htext]
      rwa [← List.append_assoc]

/-! ### The first token of a line -/

end Scanner

/-- A position of a text stands in its line behind `indentation` and nothing else, where the text is
read from `start` on; `tail` is the text behind the position. -/
def Text.IndentedAt (t : Text) (start position : Nat) (indentation tail : Text) : Prop :=
  ∃ skipped lines, t = skipped ++ lines ++ indentation ++ tail ∧ start = size skipped ∧
    position = size skipped + size lines + size indentation ∧
    isTerminated lines = true ∧ indentation.all isBlank = true

namespace Scanner

/-- How the first token of a line's own text, taken between two states of a scanner, stands to the
blocks that were open before the line. -/
inductive Aligned (config : Config) (t : Text) (start : Nat) (blocks : IndentStack) (s : Scanner)
    (token : Token) (s' : Scanner) : Prop where
  /-- The line closes all blocks. -/
  | closing : token.kind = .bodyEnd ∨ token.kind = .titleKw ∨ token.kind = .eof →
      s'.stack = .empty → Aligned config t start blocks s token s'
  /-- The innermost block is as wide as the line. -/
  | level (indentation tail : Text) (width : Nat) :
      t.IndentedAt start (token.range s.offset).start indentation tail →
      width = IndentStack.measure config.tabWidth indentation →
      s'.stack = blocks.onLine width → s'.stack.top = width →
        Aligned config t start blocks s token s'
  /-- The line is less wide than the innermost block, and as wide as none of them. All of it is an
  error, and is reported. -/
  | mismatch (indentation tail : Text) (width : Nat) :
      t.IndentedAt start (token.range s.offset).start indentation tail →
      width = IndentStack.measure config.tabWidth indentation →
      token.kind = .errorToken → token.text? = some (Text.firstLine tail) → token.trailing = [] →
      s'.diagnostics = s.diagnostics ++ [{
        problem := .lexical .indentationMismatch
        message := Problem.message (.lexical .indentationMismatch)
        range := token.range s.offset }] →
      s'.stack = blocks.onLine width → width < blocks.top → width ≠ 0 → width ∉ blocks.widths →
      Aligned config t start blocks s token s'

/-- A line starts where a scanner stands: it is at the start of a line or at the unterminated end of
the text, or there is a line break in front of it. -/
def StartsLine (s : Scanner) (mode : Mode) (before : Text) : Prop :=
  (s.settle mode).lineStart = true ∨ Text.isTerminated before = true

/-- The content behind skipped lines stands behind the blanks of its line. -/
lemma indentedAt_content (skipped : Text) {before rest lines indentation : Text}
    (htext : before ++ Trivia.concat (lineTrivia rest) = lines ++ indentation)
    (hterm : Text.isTerminated lines = true) (hblanks : indentation.all isBlank = true) :
    (skipped ++ before ++ rest).IndentedAt (Text.size skipped)
      (Text.size skipped + Text.size before + Text.size (Trivia.concat (lineTrivia rest)))
      indentation (contentOf rest) := by
  refine ⟨skipped, lines, ?_, rfl, ?_, hterm, hblanks⟩
  · conv_lhs => rw [← concat_lineTrivia rest]
    rw [← List.append_assoc, List.append_assoc skipped, htext]
    simp
  · have := congrArg Text.size htext
    simp only [Text.size_append] at this
    omega

lemma Tracks.aligned {config : Config} {skipped before : Text} {blocks : IndentStack} {s : Scanner}
    (h : Tracks config before blocks s) (hs : s.Good)
    (hoff : s.offset = Text.size skipped + Text.size before) {mode : Mode}
    (hm : mode.isIndentSensitive = true) (hline : s.StartsLine mode before)
    (hk : (s.ahead mode).token.kind.isStructural = false) :
    Aligned config (skipped ++ before ++ s.rest) (Text.size skipped) blocks s (s.ahead mode).token
      (s.after mode) := by
  have hsettled := h.settle hs.rising mode
  have hset := settle_of_sensitive s hm
  have ht := hs.takes mode
  generalize s.ahead mode = l, s.after mode = s' at ht hk
  cases ht with
  | dedent | blank | indent => simp [Token.ofParts, Kind.isStructural] at hk
  | mismatch p _ hplan hd he hl =>
    have hcloses : closesBlocks (contentOf (s.settle mode).rest) = false := by
      by_contra hc
      have := (hsettled.closing p hplan (by simpa using hc)).2
      simp [he] at this
    obtain ⟨lines, indentation, htext, hterm, hblanks, hleads⟩ := hsettled.planned p hplan hcloses
    cases hleads with
    | level he' => simp [he'] at he
    | deeper he' => simp [he'] at he
    | mismatch _ hstack hlt hne hnot =>
      rw [hd, IndentStack.closed_zero] at hstack
      rw [settle_rest] at htext
      have hrange : l.token.range s.offset = .ofSize
          (Text.size skipped + Text.size before + Text.size (Trivia.concat (lineTrivia s.rest)))
          (Text.size (Text.firstLine (contentOf s.rest))) := by
        rw [hl, Token.token_placed, Token.range_ofParts, hoff, settle_rest]
      refine .mismatch indentation (contentOf s.rest) _ ?_ rfl ?_ ?_ ?_ ?_ hstack hlt hne hnot
      · rw [hrange]
        exact indentedAt_content skipped htext hterm hblanks
      · rw [hl]
        rfl
      · rw [hl, Token.token_placed, Token.text?_ofParts, settle_rest]
      · rw [hl]
        rfl
      · simp only [report, hl, settle_diagnostics, settle_offset]
        rfl
  | content _ hidle hblank hl =>
    have hrange : (l.token.range s.offset).start =
        s.offset + Text.size (Trivia.concat ((s.settle mode).leading mode)) := by
      rw [hl, content_token, Token.range_ofParts]
      rfl
    have hkind : l.token.kind = (Lexeme.next mode ((s.settle mode).body mode)).kind := by
      rw [hl, content_token]
      rfl
    cases hstart : (s.settle mode).lineStart
    · -- nothing is left of the text, and no block is open
      have hrest := (hsettled.midLine hstart).2.2.resolve_right
        (by simp [hline.resolve_left (by simp [hstart])])
      have hempty : s.stack.widths = [] := by
        rw [settle_rest] at hrest
        simp only [hset, Bool.or_eq_false_iff] at hstart
        simpa [atUnterminatedEnd, hrest, Text.dropBlanks, IndentStack.isEmpty] using hstart.2
      have hbody : (s.settle mode).body mode = [] := by
        rw [body, hrest, List.drop_nil]
      refine .closing (.inr (.inr ?_)) ?_
      · rw [hkind, hbody, Lexeme.next_nil]
      · simp only [settle_stack]
        exact congrArg IndentStack.mk hempty
    · obtain ⟨p, hplan⟩ : ∃ p, (s.settle mode).line = some p := by
        rw [hset] at hstart ⊢
        simp only at hstart ⊢
        rw [hstart]
        cases hline : s.line <;> simp
      obtain ⟨hd, he⟩ := hidle p hplan
      rw [body_of_lineStart _ _ hstart, settle_rest] at hkind
      have hlead : (s.settle mode).leading mode = lineTrivia s.rest := by
        simp [leading, hstart]
      rw [hlead] at hrange
      cases hcloses : closesBlocks (contentOf (s.settle mode).rest)
      · obtain ⟨lines, indentation, htext, hterm, hblanks, hleads⟩ :=
          hsettled.planned p hplan hcloses
        cases hleads with
        | deeper he' => simp [he'] at he
        | mismatch he' => simp [he'] at he
        | level _ hstack htop =>
          rw [hd, IndentStack.closed_zero] at hstack
          rw [settle_rest] at htext
          refine .level indentation (contentOf s.rest) _ ?_ rfl hstack
            ((congrArg IndentStack.top hstack).trans htop)
          rw [hrange, hoff]
          exact indentedAt_content skipped htext hterm hblanks
      · have hzero := (hsettled.closing p hplan hcloses).1
        rw [settle_rest] at hcloses
        refine .closing ?_ ?_
        · rw [hkind]
          exact kind_of_closesBlocks hm (lineBreak?_contentOf s.rest) hcloses
        · rw [hd] at hzero
          exact congrArg IndentStack.mk (List.length_eq_zero_iff.1 hzero.symm)

/-- Only the tokens that open and close blocks change the open blocks. -/
lemma Takes.stack_eq {s s' : Scanner} {mode : Mode} {l : Lexed} (h : Takes s mode l s')
    (h1 : l.token.kind ≠ .indent) (h2 : l.token.kind ≠ .dedent) : s'.stack = s.stack := by
  cases h with
  | dedent => exact absurd rfl h2
  | indent => exact absurd rfl h1
  | blank | mismatch | content => rfl

/-- **The open blocks follow the indentation of the lines**, whatever was asked of a scanner before,
in any modes. A blank line and the tokens of a line change no blocks. Where statements stand, the
first token of a line's own text is taken with just those blocks open that the line asks for; they
are known from the width of the line and from the blocks that were open before it, so that the blank
lines and comments in between do not count. -/
theorem stack_tracks_indentation {config : Config} {t : Text} {offset : Nat} {stack : IndentStack}
    {start : Scanner} (hstart : resume? config t offset stack = some start) (hstack : stack.Rising)
    (cs : List Call) (mode : Mode) :
    (((start.calls cs).2.bump mode).1.token.kind ≠ .indent →
      ((start.calls cs).2.bump mode).1.token.kind ≠ .dedent →
      ((start.calls cs).2.bump mode).2.stack = (start.calls cs).2.stack) ∧
    (mode.isIndentSensitive = true →
      (start.calls cs).2.StartsLine mode ((start.calls cs).1.flatMap (·.token.fullText)) →
      ((start.calls cs).2.bump mode).1.token.kind.isStructural = false →
      Aligned config t offset (start.lineBlocks stack cs) (start.calls cs).2
        ((start.calls cs).2.bump mode).1.token ((start.calls cs).2.bump mode).2) := by
  obtain ⟨heq, hwithin⟩ := within_of_resume? hstart
  have hgood : start.Good := heq ▸ good_atLine config start.rest offset hstack
  have hoffset : start.offset = offset := by rw [heq]; rfl
  have htracks : Tracks config [] stack start := by
    rw [heq]
    exact ⟨rfl, by simp [atLine], fun _ _ => ⟨rfl, rfl⟩, by simp [ClosesAll, atLine],
      by simp [atLine]⟩
  have hnow := htracks.calls hgood cs
  obtain ⟨h1, ⟨pre, hpre, hsize⟩, ⟨skipped, after, htext, hskipped, hstop⟩⟩ :=
    calls_spec hgood hwithin cs
  obtain ⟨rfl, rfl⟩ : pre = skipped ++ (start.calls cs).1.flatMap (·.token.fullText) ∧
      (start.calls cs).2.rest = after := by
    refine Text.append_inj_of_size (hpre.symm.trans htext) ?_
    rw [← hsize, hstop, Text.size_append]
  rw [h1.bump_eq]
  refine ⟨fun hi hd => ?_, fun hm hline hk => ?_⟩
  · rw [(h1.takes mode).stack_eq hi hd, settle_stack]
  · rw [htext, ← hoffset, hskipped]
    exact hnow.aligned h1 (by rw [hsize, Text.size_append]; rfl) hm hline hk

/-- Behind a two-byte character, in a block of width two, a line opens a block of width four. The
line after the blank line and the comment is indented by three columns: the inner block is closed
while text is asked for and the blank line is taken behind it, and then all of the line is an
error. -/
theorem stack_tracks_indentation_mismatch :
    resume? {} "é\n    b\n\n // c\n   d\ne".toList 3 ⟨[2]⟩ =
        some (atLine {} "    b\n\n // c\n   d\ne".toList 3 ⟨[2]⟩) ∧
      (IndentStack.mk [2]).Rising ∧
      ((atLine {} "    b\n\n // c\n   d\ne".toList 3 ⟨[2]⟩).calls [.bump .statement, .bump .text,
        .bump .text, .peek .statement, .bump .text, .bump .afterOption]).1.map (·.token.kind) =
          [.indent, .text, .newline, .dedent, .blankLine] ∧
      Aligned {} "é\n    b\n\n // c\n   d\ne".toList 3 ⟨[2, 4]⟩
        ((atLine {} "    b\n\n // c\n   d\ne".toList 3 ⟨[2]⟩).calls [.bump .statement, .bump .text,
          .bump .text, .peek .statement, .bump .text, .bump .afterOption]).2
        (.ofParts [⟨.whitespace, " ".toList⟩, ⟨.comment, "// c".toList⟩, ⟨.newline, "\n".toList⟩,
          ⟨.whitespace, "   ".toList⟩] .errorToken "d".toList [])
        (((atLine {} "    b\n\n // c\n   d\ne".toList 3 ⟨[2]⟩).calls [.bump .statement, .bump .text,
          .bump .text, .peek .statement, .bump .text, .bump .afterOption]).2.bump
            .statement).2 := by
  have hstart : resume? {} "é\n    b\n\n // c\n   d\ne".toList 3 ⟨[2]⟩ =
      some (atLine {} "    b\n\n // c\n   d\ne".toList 3 ⟨[2]⟩) := by decide +kernel
  have hrising : (IndentStack.mk [2]).Rising := by decide
  have hline := (stack_tracks_indentation hstart hrising [.bump .statement, .bump .text,
    .bump .text, .peek .statement, .bump .text, .bump .afterOption] .statement).2 rfl
    (.inl (by decide +kernel)) (by decide +kernel)
  have hblocks : (atLine {} "    b\n\n // c\n   d\ne".toList 3 ⟨[2]⟩).lineBlocks ⟨[2]⟩
      [.bump .statement, .bump .text, .bump .text, .peek .statement, .bump .text,
        .bump .afterOption] = ⟨[2, 4]⟩ := by decide +kernel
  have htoken : (((atLine {} "    b\n\n // c\n   d\ne".toList 3 ⟨[2]⟩).calls [.bump .statement,
      .bump .text, .bump .text, .peek .statement, .bump .text,
      .bump .afterOption]).2.bump .statement).1.token =
        .ofParts [⟨.whitespace, " ".toList⟩, ⟨.comment, "// c".toList⟩, ⟨.newline, "\n".toList⟩,
          ⟨.whitespace, "   ".toList⟩] .errorToken "d".toList [] := by decide +kernel
  rw [hblocks, htoken] at hline
  exact ⟨hstart, hrising, by decide +kernel, hline⟩

end Scanner

end DialogueScript
