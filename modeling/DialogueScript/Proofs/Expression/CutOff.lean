import DialogueScript.Proofs.Expression.AnyDepth
import DialogueScript.Proofs.Expression.Interpolation
import DialogueScript.Proofs.Grammar.Placed

/-!
Expressions of any depth in a line of dialogue. What is nested too deeply in them is left out, and
the line goes on behind the brace that closes them.
-/

set_option synthInstance.maxSize 512

namespace DialogueScript

open DialogueScript.Parser DialogueScript.Scanner

/-! ### Text behind an interpolation -/

namespace Lexeme

variable {w : Text} (h : PlainText w)
include h

lemma commentless_spaced : Text.Commentless (' ' :: w) := by
  rintro hi
  rcases List.infix_cons_iff.1 hi with hp | hi
  · simp at hp
  · exact h.commentless hi

lemma text_spaced (r : Text) : text (' ' :: w ++ '\n' :: r) = ⟨.text, w.length + 1, none⟩ := by
  have hlast : (' ' :: w).getLast?.all (!isBlank ·) = true := by
    have hne := h.trimmed.1
    rw [List.getLast?_cons_of_ne_nil hne]
    exact h.trimmed.2.2
  have hrun := textRun_append (List.cons_ne_nil ' ' w) (commentless_spaced h)
    (by simpa [isTextStop, isLineBreak] using h.chars) hlast r
  rw [List.length_cons] at hrun
  rw [← hrun]
  rfl

end Lexeme

namespace Scanner

variable {w : Text} (h : Lexeme.PlainText w)
include h

/-- Text behind an interpolation starts with the blank in front of it. -/
lemma facing_spaced (r : Text) : Facing .text .text (' ' :: w) [] ('\n' :: r) where
  toTokenAt := tokenAt_line (Lexeme.text_spaced h r)
  gap := by
    have hcomment := (Lexeme.commentless_spaced h).startsComment_append r
    rw [List.append_nil]
    generalize ' ' :: w ++ '\n' :: r = t at hcomment
    simp [DialogueScript.gap, Mode.skipsBlanks, Mode.allowsComments, commentTrivia, hcomment]
  insensitive := rfl

lemma not_endsText (r : Text) : endsText (Text.dropBlanks (' ' :: (w ++ '\n' :: r))) = false := by
  have hcomment := h.commentless.startsComment_append r
  have hchars := h.chars
  obtain ⟨c, cs, rfl, h1, h2⟩ := head_plain h
  have hdrop : Text.dropBlanks (' ' :: (c :: cs ++ '\n' :: r)) = c :: cs ++ '\n' :: r := by
    rw [Text.dropBlanks, List.dropWhile_cons_of_pos (by decide), List.cons_append,
      List.dropWhile_cons_of_neg (by simp [h1])]
  have hstop : Lexeme.isTextStop c = false := by simpa using List.all_eq_true.1 hchars c (by simp)
  have hne : ∀ d, Lexeme.isTextStop d = true → (d == c) = false := by
    rintro d hd
    rw [beq_eq_false_iff_ne]
    rintro rfl
    simp [hd] at hstop
  rw [Text.startsComment, List.cons_append] at hcomment
  rw [hdrop, endsText, Text.atLineEnd, List.cons_append, Text.lineBreak?_cons _ h2]
  simp only [List.any_cons, hcomment]
  simp [Text.startsWith, List.isPrefixOf, hne '#' (by decide), hne '<' (by decide),
    hne '>' (by decide)]

/-- A closing brace leaves the blank to the text behind it. -/
lemma facing_rightBrace_text (r : Text) :
    Facing .expr .rightBrace Kind.rightBrace.chars [] (' ' :: (w ++ '\n' :: r)) where
  next := by
    have hlex : Lexeme.expr .expr (Kind.rightBrace.chars ++ (' ' :: (w ++ '\n' :: r))) =
        ⟨.rightBrace, Kind.rightBrace.chars.length, none⟩ := by
      unfold Lexeme.expr
      rw [Lexeme.spelledAt?_single (by decide)]
      rfl
    rw [List.append_nil, ← hlex]
    exact Lexeme.next_expr (.inl rfl) (by decide)
  trail := by
    rw [trailing, if_neg (by decide), List.nil_append, not_endsText h r]
    rfl
  gap := rfl
  insensitive := rfl

end Scanner

/-! ### Interpolations -/

namespace Parser

open ParserState

/-- A rule that makes a node leaves the node behind, whatever is in it. -/
lemma Passes.course {keep : Diagnostic → Bool} {q q' : Scanner → Prop} {pre : List Tree} {k : Kind}
    {p : Parser Unit} [Rule p] (h : Passes keep q (Parser.node k p) (fun _ => True) q') :
    Course q pre (Parser.node k p) () (fun ts => ∃ us, ts = pre ++ [.node k us]) q' keep := by
  intro s base hs hi
  obtain ⟨-, h2, h3⟩ := h hs
  obtain ⟨us, hus⟩ := Rule.inner_node p hs.good k
  refine ⟨rfl, h2, h3, (Rule.follows (Parser.node k p) hs.good).outer, _, ⟨us, rfl⟩, ?_⟩
  rw [hus, hi]
  simp

end Parser

namespace Term

variable {levels : Nat} {e : Term} {ps : List Piece} {b r w : Text}

section
variable (hspelled : e.spelled = true) (hclean : e.cutsCleanly levels = true)
  (htokens : ps.map (·.token) = e.tokens) (hlaid : Piece.Laid ps)
include hspelled hclean htokens hlaid

/-- **An interpolation ends at its own brace**, however deep the expression in it is nested. -/
lemma interpolation_passes {mode : Mode} {stack : IndentStack} {q : Scanner → Prop}
    (hopen : Offers mode .leftBrace ['\x7b'] q (Midline stack (Piece.concat ps ++ ('\x7d' :: r))))
    (hface : Facing .expr .rightBrace ['\x7d'] [] r) :
    Passes Diagnostic.isOther q (interpolation levels mode) (fun _ => True) (Midline stack r) := by
  have hclose : Offers .expr .rightBrace ['\x7d'] (Midline stack ('\x7d' :: r)) (Midline stack r) :=
    Midline.offers hface (by decide)
  have hexpr := (passes e levels hspelled hclean).spine.expr hspelled
    (written_braced hspelled htokens hlaid r) hclose.toFaces (by decide)
  unfold interpolation interpolationEnd
  apply Passes.node
  refine (Passes.advance hopen (by decide)).bind fun _ _ => hexpr.bind fun _ _ => ?_
  refine (Passes.eat hclose (by decide)).bind ?_
  rintro _ rfl
  exact .pure trivial

end

/-! ### Lines -/

/-- The line that a braced term and text behind it make up, of which the term was read as `x`. -/
def cutOffLine (x : Option Expr) (w : Text) : Stmt :=
  .line ⟨some [.interpolation x, .text (' ' :: w)], none, []⟩

/-- The parts of such a line. -/
def IsCutOff (w : Text) (us : List Tree) : Prop :=
  ∃ x, linePartsAmong us = [.interpolation x, .text (' ' :: w)]

lemma LineTree.cutOff {t : Tree} (h : LineTree (IsCutOff w) t) :
    ∃ x, Stmt.ofTree? t = some (cutOffLine x w) := by
  obtain ⟨us, ⟨x, hx⟩, hline⟩ := h
  exact ⟨x, Stmt.ofTree?_line (V := (linePartsAmong · = _)) ⟨us, hx, hline⟩ fun _ h => h⟩

section
variable (hspelled : e.spelled = true) (hclean : e.cutsCleanly levels = true)
  (htokens : ps.map (·.token) = e.tokens) (hlaid : Piece.Laid ps) (hw : Lexeme.PlainText w)
include hspelled hclean htokens hlaid hw

lemma lineText_cutOff {mode : Mode} {stack : IndentStack} {q : Scanner → Prop}
    (hopen : Offers mode .leftBrace ['\x7b'] q
      (Midline stack (Piece.concat ps ++ ('\x7d' :: ' ' :: (w ++ '\n' :: r))))) :
    Course q [] (lineText levels mode) true
      (fun ts => ∃ us, IsCutOff w us ∧ ts = [.node .lineText us])
      (Midline stack ('\n' :: r)) Diagnostic.isOther := by
  have hpass :=
    interpolation_passes hspelled hclean htokens hlaid hopen (facing_rightBrace_text hw r)
  have htext : Offers .text .text (' ' :: w) (Midline stack (' ' :: w ++ [] ++ '\n' :: r))
      (Midline stack ('\n' :: r)) := Midline.offers (facing_spaced hw r) (by decide)
  rw [List.append_nil] at htext
  have hfirst : Course q [] (textStep levels mode false) (.yield true)
      (fun us => ∃ cs, us = [.node .interpolation cs]) (Midline stack (' ' :: w ++ '\n' :: r))
      Diagnostic.isOther := by
    refine Course.peekKind hopen.toFaces ?_
    unfold interpolation at hpass ⊢
    refine hpass.course.bind ?_
    rintro _ ⟨cs, rfl⟩
    exact .pure ⟨cs, rfl⟩
  have hsecond (cs : List Tree) : Course (Midline stack (' ' :: w ++ '\n' :: r))
      [.node .interpolation cs]
      (textStep levels mode true) (.yield true) (IsCutOff w) (Midline stack ('\n' :: r))
      Diagnostic.isOther := by
    refine Course.peekKind htext.toFaces ?_
    refine (Course.advance htext (by decide)).bind ?_
    rintro _ ⟨token, hk, hspell, rfl⟩
    exact .pure ⟨Expr.among? cs, by simp [linePartsAmong, Part.ofNode?, hk, hspell]⟩
  have hbreak : Faces .text .newline (Midline stack ('\n' :: r)) :=
    Midline.faces (facing_newline rfl)
  unfold lineText
  refine Course.nodeIf .lineText (V := IsCutOff w) ?_
  refine Course.loop_yield (I := fun _ => Any) (fun _ _ hg => Rule.good _ hg)
    (advances_textStep levels mode) (fun _ _ => trivial) hfirst ?_
  rintro _ ⟨cs, rfl⟩
  refine Course.loop_yield (I := fun _ => Any) (fun _ _ hg => Rule.good _ hg)
    (advances_textStep levels mode) (fun _ _ => trivial) (hsecond cs) fun us hus => ?_
  exact Course.loop_done (Course.peekKind hbreak (.pure hus))

/-- A line with a braced term and text behind it, in front of the next line. -/
lemma statement_cutOff (hb : b.all isBlank = true) {c : Text} (hr : LineOf 0 c r)
    (terminators : KindSet) :
    Course (LineAt 0 0 (braced b ps ++ (' ' :: w ++ '\n' :: r))) []
      (statement (levels + 1) terminators) ()
      (fun ts => ∃ x, Stmt.ofAll ts = [cutOffLine x w]) (LineAt 0 0 c) Diagnostic.isOther := by
  have hopen :=
    offers_leftBrace hb (unspaced_pieces hspelled htokens ('\x7d' :: ' ' :: (w ++ '\n' :: r)))
  rw [← braced_append] at hopen
  have hend : Offers .text _ _ _ _ := Midline.offers_line (d := 0) rfl hr (by omega)
  have htext := lineText_cutOff hspelled hclean htokens hlaid hw hopen
  refine (statement_line hopen.toFaces (.inr rfl) (line_of_text htext hend)).mono ?_
  rintro _ ⟨t, ht, rfl⟩
  obtain ⟨x, hx⟩ := LineTree.cutOff ht
  exact ⟨x, by simp [Stmt.ofAll_cons, hx]⟩

end

/-- One level is spent on the line itself. -/
lemma readsBody_cutOff (hspelled : e.spelled = true) (hclean : e.cutsCleanly (maxDepth - 1) = true)
    (htokens : ps.map (·.token) = e.tokens) (hlaid : Piece.Laid ps) (hw : Lexeme.PlainText w)
    (hb : b.all isBlank = true) : ReadsBody (braced b ps ++ (' ' :: w ++ ['\n']))
      (fun ts => ∃ x, Stmt.ofAll ts = [cutOffLine x w]) Diagnostic.isOther :=
  readsBody_line fun _ _ hr => statement_cutOff hspelled hclean htokens hlaid hw hb hr .empty

end Term

/-! ### Scripts -/

/-- A script with one line, which is a braced term and text behind it. -/
def Term.cutOffScript (title b : Text) (ps : List Piece) (w : Text) : Text :=
  nodeText title (Term.braced b ps ++ (' ' :: w ++ ['\n'])) ++ ['\n']

namespace Parse

lemma isTooDeep_of_state {config : Config} {t : Text}
    (h : (finalState config t none).diagnostics.filter Diagnostic.isOther = []) :
    ∀ d ∈ (ofText config t).diagnostics, d.message = "expression is nested too deeply" := by
  intro d hd
  have hbare : (ofText config t).diagnostics.map Diagnostic.bare =
      (finalState config t none).diagnostics.map Diagnostic.bare := Diagnostic.map_bare_located t _
  have hmem : d.bare ∈ (finalState config t none).diagnostics.map Diagnostic.bare :=
    hbare ▸ List.mem_map_of_mem hd
  obtain ⟨d', hd', heq⟩ := List.mem_map.1 hmem
  have hmessage : d'.message = d.message := congrArg (·.message) heq
  have hdeep := List.filter_eq_nil_iff.1 h d' hd'
  rw [← hmessage]
  simpa [Diagnostic.isOther, Diagnostic.isTooDeep] using hdeep

/-- **An expression is cut off cleanly**, however deep it is nested, unless a comma stands in what
is passed over: nothing is reported but that it is nested too deeply, and the text behind its
closing brace is the rest of the line. -/
theorem expression_cut_off (config : Config) {title : Text} (htitle : Title title) {e : Term}
    (hspelled : e.spelled = true) (hclean : e.cutsCleanly (maxDepth - 1) = true) {ps : List Piece}
    (htokens : ps.map (·.token) = e.tokens) (hlaid : Piece.Laid ps) {b w : Text}
    (hb : b.all isBlank = true) (hw : Lexeme.PlainText w) :
    (∀ d ∈ (ofText config (Term.cutOffScript title b ps w)).diagnostics,
      d.message = "expression is nested too deeply") ∧
      ∃ x, Script.ofTree (ofText config (Term.cutOffScript title b ps w)).tree =
        ⟨[], [.plain title [Term.cutOffLine x w]]⟩ := by
  have hscript : Term.cutOffScript title b ps w = nodesText (fun _ : Unit => title)
      (fun _ => Term.braced b ps ++ (' ' :: w ++ ['\n'])) [()] := by
    simp [nodesText, Term.cutOffScript]
  obtain ⟨h1, ts, token, hts, h2⟩ := ofText_nodes config (fun _ : Unit => htitle)
    (fun _ => Term.readsBody_cutOff hspelled hclean htokens hlaid hw hb) (List.cons_ne_nil () [])
  rw [← hscript] at h1 h2
  refine ⟨isTooDeep_of_state h1, ?_⟩
  obtain ⟨t, _, ⟨us, vs, ⟨x, hus⟩, htree⟩, hnil, rfl⟩ := List.forall₂_cons_left_iff.1 hts
  obtain rfl := List.forall₂_nil_left_iff.1 hnil
  have hnode : NodeTree title (Stmt.ofAll · = [Term.cutOffLine x w]) t := ⟨us, vs, hus, htree⟩
  obtain ⟨cs, rfl, hcs⟩ := node_readBack hnode
  refine ⟨x, ?_⟩
  rw [h2]
  simp [Script.ofTree, Tree.children, hashtagsAmong, hcs]

/-- A call with two arguments, and behind it a sum in two hundred parentheses. -/
theorem expression_cut_off_parens :
    let call : Term := .call ['f'] [.string ['\\', '"'], .number ['1'] none]
    let e : Term :=
      .binary .plus call (Term.paren^[200] (.binary .plus (.var ['x']) (.number ['2'] none)))
    e.spelled = true ∧ e.cutsCleanly (maxDepth - 1) = true ∧
      (∀ d ∈ (ofText {}
        (Term.cutOffScript ['A'] [] (Piece.spread e.tokens) "done".toList)).diagnostics,
        d.message = "expression is nested too deeply") ∧
      ∃ x, Script.ofTree
        (ofText {} (Term.cutOffScript ['A'] [] (Piece.spread e.tokens) "done".toList)).tree =
        ⟨[], [.plain ['A'] [Term.cutOffLine x "done".toList]]⟩ := by
  intro call e
  have hspelled : e.spelled = true := by decide +kernel
  have hclean : e.cutsCleanly (maxDepth - 1) = true := by decide +kernel
  exact ⟨hspelled, hclean, expression_cut_off {} ⟨by decide, by decide, by decide⟩ hspelled hclean
    (Piece.map_token_spread e.tokens) (Piece.laid_spread e.tokens) (by decide)
    ⟨by decide, by decide, by decide⟩⟩

/-- Where no level is left, a comma between arguments ends what is passed over, so that all the
parentheses around the call stay open. -/
theorem expression_not_cut_off_at_comma :
    let e : Term := Term.paren^[128] (.call ['f'] [.number ['1'] none, .number ['2'] none])
    e.spelled = true ∧
      ∃ d ∈ (ofText {}
        (Term.cutOffScript ['A'] [] (Piece.spread e.tokens) "done".toList)).diagnostics,
        d.message ≠ "expression is nested too deeply" := by
  decide +kernel

end Parse

end DialogueScript
