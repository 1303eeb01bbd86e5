import DialogueScript.Proofs.Grammar.StatementCourse
import DialogueScript.Proofs.Parse.ReadBack

/-!
Expressions between braces in a line of dialogue. Whatever expression is written there, with
whatever blanks between its tokens, is the expression that the line holds.
-/

namespace DialogueScript

open DialogueScript.Parser DialogueScript.Scanner

namespace Term

variable {e : Term} {ps : List Piece} {b r : Text}

/-- A term between braces, behind some blanks. -/
def braced (b : Text) (ps : List Piece) : Text := '\x7b' :: (b ++ (Piece.concat ps ++ ['\x7d']))

lemma braced_append (b : Text) (ps : List Piece) (r : Text) :
    braced b ps ++ r = ['\x7b'] ++ b ++ (Piece.concat ps ++ ('\x7d' :: r)) := by
  simp [braced]

section
variable (hspelled : e.spelled = true) (htokens : ps.map (·.token) = e.tokens)
include hspelled htokens

lemma solid_pieces : ∀ p ∈ ps, p.token.Solid := by
  intro p hp
  exact solid_tokens e hspelled _ (htokens ▸ List.mem_map_of_mem hp)

/-- No blank stands in front of the first token. -/
lemma unspaced_pieces (r : Text) : Text.Unspaced (Piece.concat ps ++ r) := by
  have hsolid := solid_pieces hspelled htokens
  rcases ps with _ | ⟨p, ps⟩
  · exact absurd htokens.symm e.tokens_ne_nil
  · obtain ⟨c, cs, hp, hc⟩ := hsolid p (by simp)
    rw [Piece.concat_cons, hp]
    rintro _ ⟨⟩
    exact hc

/-- A closing brace ends every token. -/
lemma written_braced (hlaid : Piece.Laid ps) (r : Text) : e.Written ps ('\x7d' :: r) := by
  refine ⟨htokens, hlaid.spaced (solid_pieces hspelled htokens) ⟨_, _, rfl, by decide⟩ ?_⟩
  rintro _ ⟨⟩
  decide

end

/-- The braces and the term between them are one part of a line. -/
lemma interpolation_course (hwell : e.wellFormed = true) {levels : Nat} (hd : e.depth < levels)
    (htokens : ps.map (·.token) = e.tokens) (hlaid : Piece.Laid ps) {mode : Mode}
    {stack : IndentStack} {q : Scanner → Prop} {pre : List Tree}
    (hopen : Offers mode .leftBrace ['\x7b'] q (Midline stack (Piece.concat ps ++ ('\x7d' :: r))))
    (hr : Text.Unspaced r) :
    Course q pre (interpolation levels mode) ()
      (fun ts => ∃ us, Expr.among? us = some e.value ∧ ts = pre ++ [.node .interpolation us])
      (Midline stack r) := by
  have hclose : Offers .expr .rightBrace ['\x7d'] (Midline stack ('\x7d' :: r)) (Midline stack r) :=
    Midline.offers (Piece.facing_rightBrace hr) (by decide)
  unfold interpolation interpolationEnd
  refine Course.node .interpolation (V := fun us => Expr.among? us = some e.value) ?_
  refine (Course.advance hopen (by decide)).bind ?_
  rintro _ ⟨t1, -, -, rfl⟩
  have hwritten := written_braced (spelled_of_wellFormed e hwell) htokens hlaid r
  refine (expr_course hwell hd hwritten hclose.toFaces (by decide)).step ?_
  rintro _ ⟨t, rfl, ht⟩
  refine (Course.eat hclose (by decide)).bind ?_
  rintro _ ⟨t2, -, -, rfl⟩
  exact .pure (by simp [Expr.among?, Expr.ofAll_cons, ht])

/-- The line that a braced term makes up. -/
def interpolationLine (e : Term) : Stmt := .line ⟨some [.interpolation (some e.value)], none, []⟩

lemma lineOf_braced (b : Text) (ps : List Piece) (r : Text) :
    LineOf 0 (braced b ps ++ r) (braced b ps ++ r) := by
  rw [braced, List.cons_append]
  exact ⟨rfl, ⟨by simp, by rintro _ ⟨⟩; decide, rfl, rfl⟩, fun _ => rfl, by decide⟩

lemma kindOf_braced (b : Text) (ps : List Piece) (r : Text) :
    kindOf 0 0 (braced b ps ++ r) = .leftBrace :=
  rfl

lemma offers_leftBrace (hb : b.all isBlank = true) {t : Text} (ht : Text.Unspaced t) :
    Offers .statement .leftBrace ['{'] (LineAt 0 0 (['{'] ++ b ++ t)) (Midline (.nested 0) t) :=
  LineAt.offers (tokenAt_leftBrace rfl hb ht) (by decide)

/-- A line that is a braced term, in front of the next line. -/
lemma statement_braced (hwell : e.wellFormed = true) {levels : Nat} (hd : e.depth < levels)
    (htokens : ps.map (·.token) = e.tokens) (hlaid : Piece.Laid ps) (hb : b.all isBlank = true)
    {c : Text} (hr : LineOf 0 c r) (terminators : KindSet) :
    Course (LineAt 0 0 (braced b ps ++ ('\n' :: r))) [] (statement (levels + 1) terminators) ()
      (Stmt.ofAll · = [e.interpolationLine]) (LineAt 0 0 c) := by
  have hopen := offers_leftBrace hb
    (unspaced_pieces (spelled_of_wellFormed e hwell) htokens ('\x7d' :: '\n' :: r))
  rw [← braced_append] at hopen
  have hend : Offers .text _ _ _ _ := Midline.offers_line (d := 0) rfl hr (by omega)
  have hbreak : Text.Unspaced ('\n' :: r) := by
    rintro _ ⟨⟩
    decide
  have hstep : Course (LineAt 0 0 (braced b ps ++ ('\n' :: r))) []
      (textStep levels .statement false)
      (.yield true) (fun us => linePartsAmong us = [.interpolation (some e.value)])
      (Midline (.nested 0) ('\n' :: r)) := by
    refine Course.peekKind hopen.toFaces ?_
    refine (interpolation_course hwell hd htokens hlaid hopen hbreak).bind ?_
    rintro _ ⟨us, hus, rfl⟩
    exact .pure (by simp [linePartsAmong, Part.ofNode?, hus])
  refine (statement_line hopen.toFaces (.inr rfl) (line_course hstep hend)).mono ?_
  rintro _ ⟨t, ht, rfl⟩
  simp [Stmt.ofAll_cons, Stmt.ofTree?_line ht fun _ h => h, interpolationLine]

/-- A body can consist of a line that starts with a brace, if that is read as a statement. -/
lemma readsBody_line {w : Text} {V : List Tree → Prop} {keep : Diagnostic → Bool}
    (hstatement : ∀ ⦃c r⦄, LineOf 0 c r → Course (LineAt 0 0 (braced b ps ++ (w ++ '\n' :: r))) []
      (statement maxDepth .empty) () V (LineAt 0 0 c) keep) :
    ReadsBody (braced b ps ++ (w ++ ['\n'])) V keep := by
  intro r
  have hnext := lineOf_bodyEnd r
  have hline := lineOf_braced b ps (w ++ '\n' :: ("===".toList ++ '\n' :: r))
  have htext : braced b ps ++ (w ++ ['\n']) ++ ("===".toList ++ '\n' :: r) =
      braced b ps ++ (w ++ '\n' :: ("===".toList ++ '\n' :: r)) := by simp
  have hgo : ¬ EndsAt .empty 0 0 (braced b ps ++ (w ++ '\n' :: ("===".toList ++ '\n' :: r))) := by
    rintro (h | ⟨keyword, -, h⟩)
    · rw [kindOf_braced] at h
      simp [endsBlock] at h
    · simp [KindSet.contains_empty] at h
  have hdone : EndsAt .empty 0 0 ("===".toList ++ '\n' :: r) := .inl (.inr (.inl rfl))
  have hmoves :
      "===".toList ++ '\n' :: r ≠ braced b ps ++ (w ++ '\n' :: ("===".toList ++ '\n' :: r)) := by
    intro h
    have := congrArg List.length h
    simp [braced] at this
    omega
  refine ⟨_, Midline.offers_line rfl (htext ▸ hline) (by omega), ?_⟩
  rw [htext]
  refine (statementList_cons (by omega) hgo (hstatement hnext) hmoves
    (statementList_end (by omega) hdone)).mono ?_
  rintro _ ⟨us, _, hus, rfl, rfl⟩
  simpa using hus

/-- A body can consist of a line that is a braced term. -/
lemma readsBody_braced (hwell : e.wellFormed = true) (hdepth : e.depth ≤ 100)
    (htokens : ps.map (·.token) = e.tokens) (hlaid : Piece.Laid ps) (hb : b.all isBlank = true) :
    ReadsBody (braced b ps ++ ['\n']) (Stmt.ofAll · = [e.interpolationLine]) := by
  have hfits : e.depth < 127 := by omega
  have hline := fun ⦃c r : Text⦄ (hr : LineOf 0 c r) =>
    statement_braced hwell hfits htokens hlaid hb hr .empty
  exact readsBody_line (w := []) hline

end Term

/-- A script with one line, which is a braced term. -/
def Term.script (title b : Text) (ps : List Piece) : Text :=
  nodeText title (Term.braced b ps ++ ['\n']) ++ ['\n']

/-- **An expression in a line of dialogue is read back** from any layout of its tokens, and nothing
is reported. -/
theorem Parse.expression_round_trip (config : Config) {title : Text} (htitle : Title title)
    {e : Term} (hwell : e.wellFormed = true) (hdepth : e.depth ≤ 100) {ps : List Piece}
    (htokens : ps.map (·.token) = e.tokens) (hlaid : Piece.Laid ps) {b : Text}
    (hb : b.all isBlank = true) : (ofText config (Term.script title b ps)).diagnostics = [] ∧
      Script.ofTree (ofText config (Term.script title b ps)).tree =
        ⟨[], [.plain title [e.interpolationLine]]⟩ := by
  have h := readBack (α := Unit) config (fun _ => htitle)
    (fun _ => Term.readsBody_braced hwell hdepth htokens hlaid hb) (List.cons_ne_nil () [])
  simpa [nodesText, Term.script] using h

/-- The line `{ - 1 + f ( $a , "b" ) }` holds a sum of a negative number and a call. -/
theorem Parse.expression_round_trip_sum :
    let e : Term := .binary .plus (.unary .minus (.number ['1'] none))
      (.call ['f'] [.var ['a'], .string ['b']])
    let ps : List Piece := [⟨['-'], [' ']⟩, ⟨['1'], [' ']⟩, ⟨['+'], ['\t', ' ']⟩, ⟨['f'], [' ']⟩,
      ⟨['('], [' ']⟩, ⟨['$'], []⟩, ⟨['a'], [' ']⟩, ⟨[','], [' ']⟩, ⟨['"', 'b', '"'], [' ']⟩,
        ⟨[')'], [' ']⟩]
    e.wellFormed = true ∧ e.depth ≤ 100 ∧ ps.map (·.token) = e.tokens ∧ Piece.Laid ps ∧
      (ofText {} (Term.script ['A'] [' '] ps)).diagnostics = [] ∧
      Script.ofTree (ofText {} (Term.script ['A'] [' '] ps)).tree =
        ⟨[], [.plain ['A'] [e.interpolationLine]]⟩ := by
  intro e ps
  have hwell : e.wellFormed = true := by decide
  have hdepth : e.depth ≤ 100 := by decide
  have htokens : ps.map (·.token) = e.tokens := by decide
  have htouch : Piece.touch ['$'] ['a'] = true := by decide
  have hlaid : Piece.Laid ps := ⟨by simp [ps, isBlank], by simp [ps, htouch]⟩
  exact ⟨hwell, hdepth, htokens, hlaid,
    Parse.expression_round_trip {} ⟨by decide, by decide, by decide⟩
    hwell hdepth htokens hlaid (by decide)⟩

end DialogueScript
