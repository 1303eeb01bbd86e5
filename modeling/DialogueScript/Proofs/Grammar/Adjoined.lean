import DialogueScript.Proofs.Grammar.ExprTree
import DialogueScript.Proofs.Scanner.Gaps

/-!
The parts of a text meet. Behind each of them the rule looks at the next one in a mode that skips no
blanks, so all that can be lost between the two is what was taken for trivia of the first.
-/

set_option synthInstance.maxSize 4096

namespace DialogueScript

open DialogueScript.Tree

/-- What a rule takes while it adds a single tree is the text of the tree. -/
lemma ParserState.Follows.rest_eq {s u : ParserState} (h : Follows s u) {c : Tree}
    (hinner : u.forest.inner = c :: s.forest.inner) :
    s.scanner.rest = c.text ++ u.scanner.rest := by
  have hforest : u.forest = s.forest.add c := by
    rw [Forest.add, ← hinner, ← h.outer]
  have htext := h.text
  rw [hforest, Forest.text_add, List.append_assoc] at htext
  exact (List.append_cancel_left htext).symm

/-- A token of text that is taken. -/
lemma ParserState.Good.past_take {s : ParserState} (hg : s.Good) {mode : Mode}
    (hk : Scanner.keepsBlanks (s.kindAt mode) = true) (hne : s.kindAt mode ≠ .errorToken) :
    (s.take mode).scanner.Past (s.scanner.ahead mode).token :=
  have hpast := (hg.scanner.takes mode).past hk hne
  ⟨hpast.midLine, hpast.trivia⟩

namespace Parser

open ParserState

variable {s u : ParserState} {marks : List String} {after : Text}

/-! ### Two parts in a row -/

/-- A part that begins with the token next to a part behind which the scanner stands. -/
lemma meets_ahead {mode : Mode} {a c : Tree} {last : Token} (hs : s.scanner.Past last)
    (ha : a.tokens.getLast? = some last) (hc : c.tokens.head? = some (s.scanner.ahead mode).token)
    (hb : mode.skipsBlanks = false) (hk : s.kindAt mode ≠ .newline) (hne : s.kindAt mode ≠ .eof)
    (hmark : Scanner.endsText s.scanner.rest = true →
      (Lexeme.next mode s.scanner.rest).kind = s.kindAt mode →
      s.scanner.rest.take (Lexeme.next mode s.scanner.rest).length <+:
      (s.scanner.ahead mode).token.fullText → c.isNode = false ∧
      marks.any (Text.startsWith after ·) = true) : Meets marks a c after := by
  obtain ⟨trivia, htoken⟩ := Scanner.ahead_of_midLine hs.midLine hb hk hne
  have hkind : (Lexeme.next mode s.scanner.rest).kind = s.kindAt mode := by
    rw [kindAt, htoken]
    rfl
  rcases hs.trivia with hend | ⟨blanks, hblanks, hstop⟩
  · rcases Lexeme.next_of_atLineEnd mode hend with h | h
    · exact absurd (hkind ▸ h) hne
    · exact absurd (hkind ▸ h) hk
  · refine ⟨last, _, blanks, ha, hc, by rw [htoken]; rfl, hblanks, hstop.imp id fun hends => ?_⟩
    refine hmark hends hkind ?_
    rw [htoken]
    exact List.prefix_append _ _

/-- The parts so far meet. Behind the newest tree, if it is a part, the scanner stands as it does
behind a token of text. -/
structure Texted (marks : List String) (after : Text) (s : ParserState) : Prop where
  adjoined : Adjoined marks s.forest.trees after
  last : ∀ a, s.forest.inner.head? = some a → a.isPart = true → a.holdsError = false →
    ∃ k, a.tokens.getLast? = some k ∧ s.scanner.Past k

lemma texted_nil (h : s.forest.inner = []) : Texted marks after s := by
  refine ⟨?_, by simp [h]⟩
  rw [Forest.trees, h]
  exact adjoined_nil

/-- A look at a token of the text leaves the scanner where it is. -/
lemma Texted.look {mode : Mode} (h : Texted marks after s)
    (hmode : mode.isIndentSensitive = false) :
    Texted marks after (s.look mode) := by
  refine ⟨h.adjoined, fun a ha hpart hfree => ?_⟩
  obtain ⟨k, hk, hpast⟩ := h.last a ha hpart hfree
  have hline : (s.look mode).scanner.lineStart = (s.scanner.settle mode).lineStart := rfl
  rw [Scanner.settle_of_insensitive s.scanner hmode] at hline
  have hrest : (s.look mode).scanner.rest = s.scanner.rest := Scanner.settle_rest _ _
  exact ⟨k, hk, hline.trans hpast.midLine, hrest.symm ▸ hpast.trivia⟩

lemma Texted.add {c : Tree} (h : Texted marks (c.text ++ after) s)
    (hinner : u.forest.inner = c :: s.forest.inner)
    (hmeets : c.isPart = true → s.forest.inner ≠ [] → ∀ a last, a.tokens.getLast? = some last →
      s.scanner.Past last → Meets marks a c (c.text ++ after))
    (hlast : c.isPart = true → c.holdsError = false → ∃ k, c.tokens.getLast? = some k ∧
      u.scanner.Past k) :
    Texted marks after u := by
  have htrees : u.forest.trees = s.forest.trees ++ [c] := by
    rw [Forest.trees, Forest.trees, hinner, List.reverse_cons]
  refine ⟨?_, ?_⟩
  · rw [htrees]
    refine h.adjoined.concat fun a hnewest ha hc hfree => ?_
    rw [Forest.trees, List.getLast?_reverse] at hnewest
    obtain ⟨last, htoken, hpast⟩ := h.last a hnewest ha hfree
    exact hmeets hc (by rintro hnil; simp [hnil] at hnewest) a last htoken hpast
  · intro a hnewest hpart hfree
    obtain rfl : c = a := by simpa [hinner] using hnewest
    exact hlast hpart hfree

/-! ### Interpolations -/

instance : Readable interpolationEnd := by
  unfold interpolationEnd
  infer_instance

/-- Behind the brace that closes an interpolation the scanner stands as it does behind a token of
text; an error is left in the place of a missing one. -/
lemma inner_interpolationEnd (hg : s.Good) : ∃ zs,
    (interpolationEnd.after s).forest.inner = zs ++ s.forest.inner ∧
      ((∃ c ∈ zs, c.kind = .error) ∨ ∃ k, zs = [.leaf k] ∧
        (interpolationEnd.after s).scanner.Past k) := by
  unfold interpolationEnd
  rw [after_bind, hg.answer_eat, hg.after_eat .expr (by simp)]
  by_cases hk : s.kindAt .expr = .rightBrace
  · simp only [hk, decide_true, Bool.not_true, Bool.false_eq_true, if_false, if_true, after_pure]
    exact ⟨[_], rfl, .inr ⟨_, rfl, hg.past_take (by rw [hk]; rfl) (by simp [hk])⟩⟩
  · have hlook := hg.look .expr
    have herror := congrArg Forest.inner
      (Good.errorOf_keeps hlook .expr .unexpectedToken "expected `\x7d`").2
    have hu := Rule.good (error .expr "expected `\x7d`") hlook
    obtain ⟨cs, hcs⟩ := Rule.inner_node (advanceTo interpolationEnds) hu .error
    have hv := Rule.good (node .error (advanceTo interpolationEnds)) hu
    have hclose : Adds true (fun _ => True) (eat .expr .rightBrace) :=
      .eat .expr (by simp) (by simp)
    obtain ⟨zs, hzs, -⟩ := (hclose.grown hv).inner
    simp only [hk, decide_false, Bool.not_false, if_true, if_false, after_bind, after_pure]
    refine ⟨zs ++ [.node .error cs], ?_, .inl ⟨.node .error cs, by simp, rfl⟩⟩
    rw [hzs, hcs, List.append_assoc]
    exact congrArg (zs ++ Tree.node .error cs :: ·) herror

/-- An interpolation begins with its brace. -/
lemma inner_interpolation (hg : s.Good) (levels : Nat) {mode : Mode}
    (hk : s.kindAt mode = .leftBrace) :
    ∃ cs, ((interpolation levels mode).after s).forest.inner =
      .node .interpolation cs :: s.forest.inner ∧
      (Tree.node .interpolation cs).tokens.head? = some (s.scanner.ahead mode).token ∧
      ((Tree.node .interpolation cs).holdsError = false → ∃ k,
        (Tree.node .interpolation cs).tokens.getLast? = some k ∧
          ((interpolation levels mode).after s).scanner.Past k) := by
  have hs := good_start hg
  have hadvance : (advance mode).after s.start = s.start.take mode := by
    rw [hs.after_advance, if_neg (by simp [hk])]
  obtain ⟨ys, hys, -⟩ := (Adds.grow true (ExprTree levels 0) (expr levels) (hs.take mode)).inner
  obtain ⟨zs, hzs, hend⟩ := inner_interpolationEnd (Rule.good (expr levels) (hs.take mode))
  have hinner :=
    Reading.inner_complete (Readable.reads (p := advance mode >>= fun _ => expr levels >>= fun _ =>
    interpolationEnd)) hg .interpolation
  rw [interpolation, after_node, hinner]
  simp only [after_bind, hadvance]
  generalize (expr levels).after (s.start.take mode) = u at hys hzs hend ⊢
  have htrees : (interpolationEnd.after u).forest.trees =
      .leaf (s.scanner.ahead mode).token :: (zs ++ ys).reverse := by
    rw [Forest.trees, hzs, hys, ← List.append_assoc, List.reverse_append]
    rfl
  refine ⟨_, rfl, by simp [htrees], fun hfree => ?_⟩
  rcases hend with ⟨c, hc, herror⟩ | ⟨k, rfl, hpast⟩
  · have hholds : (Tree.node .interpolation (interpolationEnd.after u).forest.trees).holdsError =
        true := by
      refine List.any_eq_true.2 ⟨c, mem_trees.2 ?_, by simpa using herror⟩
      rw [hzs]
      exact List.mem_append_left _ hc
    simp [hholds] at hfree
  · exact ⟨k, by simp [htrees, List.getLast?_cons], hpast⟩

/-! ### Steps over a text -/

lemma keepsBlanks_of_isProse {k : Kind} (hk : k.isProse = true) :
    Scanner.keepsBlanks k = true ∧ k ≠ .errorToken ∧ k ≠ .eof ∧ k ≠ .dedent := by
  unfold Kind.isProse at hk
  split at hk
  all_goals first | exact ⟨rfl, by simp, by simp, by simp⟩ | exact absurd hk (by decide)

/-- A token of text becomes a part. -/
lemma Texted.take {mode : Mode} (hg : s.Good) (hk : (s.kindAt mode).isProse = true)
    (h : Texted marks ((s.scanner.ahead mode).token.fullText ++ after) s)
    (hmeets : s.forest.inner ≠ [] → ∀ a last, a.tokens.getLast? = some last → s.scanner.Past last →
      Meets marks a (.leaf (s.scanner.ahead mode).token)
      ((s.scanner.ahead mode).token.fullText ++ after)) :
    Texted marks after (s.take mode) := by
  obtain ⟨hkeeps, hne, -⟩ := keepsBlanks_of_isProse hk
  rw [← text_leaf] at h hmeets
  exact h.add rfl (fun _ => hmeets) fun _ _ => ⟨_, by simp, hg.past_take hkeeps hne⟩

/-- So does an interpolation. -/
lemma Texted.interpolation {mode : Mode} {levels : Nat} {cs : List Tree}
    (hinner : ((interpolation levels mode).after s).forest.inner =
      .node .interpolation cs :: s.forest.inner)
    (hlast : (Tree.node .interpolation cs).holdsError = false →
      ∃ k, (Tree.node .interpolation cs).tokens.getLast? = some k ∧
      ((interpolation levels mode).after s).scanner.Past k)
    (h : Texted marks ((Tree.node .interpolation cs).text ++ after) s)
    (hmeets : s.forest.inner ≠ [] → ∀ a last, a.tokens.getLast? = some last → s.scanner.Past last →
      Meets marks a (.node .interpolation cs) ((Tree.node .interpolation cs).text ++ after)) :
    Texted marks after ((Parser.interpolation levels mode).after s) :=
  h.add hinner (fun _ => hmeets) fun _ hfree => hlast hfree

/-! ### Text of lines -/

lemma meets_line {a c : Tree} {last : Token} (hs : s.scanner.Past last)
    (ha : a.tokens.getLast? = some last) (hc : c.tokens.head? = some (s.scanner.ahead .text).token)
    (hk : s.kindAt .text = .text ∨ s.kindAt .text = .textEscape ∨ s.kindAt .text = .leftBrace)
    (hnode : s.kindAt .text = .text → c.isNode = false) :
    Meets (Kind.marks .lineText) a c s.scanner.rest := by
  refine meets_ahead hs ha hc rfl ?_ ?_ fun hends hkind _ => ?_
  · rcases hk with h | h | h <;> simp [h]
  · rcases hk with h | h | h <;> simp [h]
  · rw [← hkind] at hk hnode
    obtain ⟨htext, hmark⟩ := Lexeme.text_at_mark hends hk
    exact ⟨hnode htext, by simp [Kind.marks, hmark]⟩

/-- The text of a line so far. Only its first token may be read in another mode. -/
structure Lined (found : Bool) (s : ParserState) : Prop where
  texted : Texted (Kind.marks .lineText) s.scanner.rest s
  parts : ∀ c ∈ s.forest.inner, (c.isPart = true ∨ c.kind = .error) ∧ c.text ≠ []
  first : found = false → s.forest.inner = []

namespace Lined

variable {found : Bool} {mode : Mode} {levels : Nat}

lemma look (h : Lined found s) (hmode : found = true → mode = .text) :
    Lined found (s.look mode) := by
  have hrest : (s.look mode).scanner.rest = s.scanner.rest := Scanner.settle_rest _ _
  refine ⟨?_, h.parts, h.first⟩
  cases found
  · exact texted_nil (h.first rfl)
  · rw [hmode rfl] at hrest ⊢
    rw [hrest]
    exact h.texted.look rfl

/-- A further tree, which begins with the token that is next. -/
lemma add (h : Lined found s) (hg : s.Good) {c : Tree}
    (hinner : u.forest.inner = c :: s.forest.inner)
    (htexted : Texted (Kind.marks .lineText) u.scanner.rest u)
    (hc : c.isPart = true ∨ c.kind = .error)
    (hfirst : c.tokens.head? = some (s.scanner.ahead mode).token) (hne : s.kindAt mode ≠ .eof)
    (hclose : s.kindAt mode ≠ .dedent) : Lined true u := by
  refine ⟨htexted, ?_, by simp⟩
  rw [hinner]
  refine List.forall_mem_cons.2 ⟨⟨hc, ?_⟩, h.parts⟩
  obtain ⟨ts, hts⟩ := List.head?_eq_some_iff.1 hfirst
  have htoken : (s.scanner.ahead mode).token.fullText ≠ [] := by
    rcases (hg.scanner.takes mode).progress (hg.scanner.settle mode) with h | ⟨h, -⟩ | ⟨h, -⟩
    · exact h
    · exact absurd h hclose
    · exact absurd h hne
  simp [text_eq_tokens, hts, htoken]

/-- What is added behind a part of the line is read as text. -/
lemma meets (h : Lined found s) (hmode : found = true → mode = .text)
    (hk : s.kindAt mode = .text ∨ s.kindAt mode = .textEscape ∨ s.kindAt mode = .leftBrace)
    (hold : s.forest.inner ≠ []) {a c : Tree} {last : Token} (ha : a.tokens.getLast? = some last)
    (hs : s.scanner.Past last) (hc : c.tokens.head? = some (s.scanner.ahead mode).token)
    (hnode : s.kindAt mode = .text → c.isNode = false) :
    Meets (Kind.marks .lineText) a c s.scanner.rest := by
  obtain rfl : mode = .text := by
    cases found
    · exact absurd (h.first rfl) hold
    · exact hmode rfl
  exact meets_line hs ha hc hk hnode

/-- The token that is next becomes a part. -/
lemma take (h : Lined found s) (hg : s.Good) (hmode : found = true → mode = .text)
    (hk : s.kindAt mode = .text ∨ s.kindAt mode = .textEscape) : Lined true (s.take mode) := by
  have hprose : (s.kindAt mode).isProse = true := by rcases hk with h | h <;> rw [h] <;> rfl
  obtain ⟨-, -, heof, hdedent⟩ := keepsBlanks_of_isProse hprose
  have hrest := hg.rest_take mode
  refine h.add hg rfl ?_ (.inl hprose) rfl heof hdedent
  refine Texted.take hg hprose (by rw [← hrest]; exact h.texted) fun hold a last ha hs => ?_
  rw [← hrest]
  exact h.meets hmode (hk.imp id .inl) hold ha hs rfl fun _ => rfl

/-- So does an interpolation. -/
lemma interpolation (h : Lined found s) (hg : s.Good) (hmode : found = true → mode = .text)
    (hk : s.kindAt mode = .leftBrace) :
    Lined true ((Parser.interpolation levels mode).after s) := by
  obtain ⟨cs, hinner, hfirst, hlast⟩ := inner_interpolation hg levels hk
  have hrest := (Rule.follows (Parser.interpolation levels mode) hg).rest_eq hinner
  refine h.add hg hinner ?_ (.inl rfl) hfirst (by simp [hk]) (by simp [hk])
  refine Texted.interpolation hinner hlast (by rw [← hrest]; exact h.texted) fun hold a last
    ha hs => ?_
  rw [← hrest]
  exact h.meets hmode (.inr (.inr hk)) hold ha hs hfirst (by simp [hk])

/-- An error is no part. -/
lemma error (h : Lined found s) (hg : s.Good) (hk : s.kindAt mode = .errorToken) :
    Lined true ((node .error (advance mode)).after s) := by
  have hs := good_start hg
  have hadvance : (advance mode).after s.start = s.start.take mode := by
    rw [hs.after_advance, if_neg (by simp [hk])]
  have hinner : ((node .error (advance mode)).after s).forest.inner =
      .node .error [.leaf (s.scanner.ahead mode).token] :: s.forest.inner := by
    rw [after_node, Reading.inner_complete Rule.reads hg, hadvance]
    rfl
  have hrest := (Rule.follows (node .error (advance mode)) hg).rest_eq hinner
  have htexted : Texted (Kind.marks .lineText) ((node .error (advance mode)).after s).scanner.rest
      ((node .error (advance mode)).after s) :=
    Texted.add (by rw [← hrest]; exact h.texted) hinner (by simp [isPart]) (by simp [isPart])
  have hfirst : (Tree.node .error [.leaf (s.scanner.ahead mode).token]).tokens.head? =
      some (s.scanner.ahead mode).token := by simp
  exact h.add hg hinner htexted (.inr rfl) hfirst (by simp [hk]) (by simp [hk])

/-- A step over the text of a line keeps all this. -/
lemma step (h : Lined found s) (hg : s.Good) (levels : Nat) (first : Mode) :
    Lined ((textStep levels first found).answer s).value
      ((textStep levels first found).after s) := by
  have hmode : found = true → (if found = true then Mode.text else first) = .text :=
    fun hf => if_pos hf
  unfold textStep
  generalize (if found = true then Mode.text else first) = mode at hmode ⊢
  have hw := hg.look mode
  have hlook := h.look hmode
  rw [after_bind, answer_bind, hg.answer_peekKind, hg.after_peekKind, ← kindAt_look]
  generalize s.look mode = w at hw hlook ⊢
  have hadvance (hne : w.kindAt mode ≠ .eof) : (advance mode).after w = w.take mode := by
    rw [hw.after_advance, if_neg hne]
  split
  · next hk =>
    rw [after_bind, hadvance (by simp [hk])]
    exact hlook.take hw hmode (.inl hk)
  · next hk =>
    rw [after_bind, hadvance (by simp [hk])]
    exact hlook.take hw hmode (.inr hk)
  · next hk => exact hlook.interpolation hw hmode hk
  · next hk => exact hlook.error hw hk
  · exact hlook

/-- A line does not end behind a `>` with another one next to it: that would be text of the line as
well. -/
lemma not_mark_of_last (h : Lined found s) (hk : s.kindAt .text ≠ .text) {b : Tree}
    (hb : s.forest.inner.head? = some b) (hpart : b.isPart = true) (hleaf : b.isNode = false)
    (hlength : b.text.length = 1) : ¬ ">>".toList <+: b.text ++ s.scanner.rest := by
  intro hmatch
  obtain ⟨_, -, hpast⟩ := h.texted.last b hb hpart (holdsError_of_leaf hleaf)
  obtain ⟨x, hx⟩ := List.length_eq_one_iff.1 hlength
  obtain ⟨t, ht⟩ := hmatch
  have hrest : s.scanner.rest = '>' :: t := by
    rw [hx] at ht
    exact (List.cons.inj ht).2.symm
  exact hk (Scanner.kind_ahead_of_mark hpast.midLine hrest)

/-- A mark that begins with a part of the line is in the line. -/
lemma two_le_of_mark (h : Lined found s) (hk : s.kindAt .text ≠ .text) {i : Nat} {b : Tree}
    (hb : s.forest.trees[i]? = some b) (hpart : b.isPart = true) (hleaf : b.isNode = false)
    (hmatch : ">>".toList <+: textAll (s.forest.trees.drop i) ++ s.scanner.rest) :
    2 ≤ (textAll (s.forest.trees.drop i)).length := by
  have hfilled : ∀ c ∈ s.forest.trees, 0 < c.text.length := fun c hc =>
    List.length_pos_iff.2 (h.parts c (mem_trees.1 hc)).2
  obtain ⟨hlt, hget⟩ := List.getElem?_eq_some_iff.1 hb
  rw [List.drop_eq_getElem_cons hlt, hget] at hmatch ⊢
  have hlength := hfilled b (List.mem_of_getElem? hb)
  rcases hnext : s.forest.trees.drop (i + 1) with _ | ⟨c, cs⟩
  · by_contra hshort
    have hnewest : s.forest.inner.head? = some b := by
      have hlast : s.forest.trees.length ≤ i + 1 := List.drop_eq_nil_iff.1 hnext
      rw [← List.getLast?_reverse, ← Forest.trees, List.getLast?_eq_getElem?,
        show s.forest.trees.length - 1 = i by omega, hb]
    rw [hnext, textAll_cons, textAll_nil, List.append_nil] at hmatch
    rw [textAll_cons, textAll_nil, List.append_nil] at hshort
    exact h.not_mark_of_last hk hnewest hpart hleaf (by omega) hmatch
  · have hc := hfilled c (List.mem_of_mem_drop (hnext ▸ List.mem_cons_self))
    simp only [textAll_cons, List.length_append]
    omega

/-- Where the text is over, so are the marks in it. -/
lemma adjoined (h : Lined found s) (hk : s.kindAt .text ≠ .text) :
    Adjoined (Kind.marks .lineText) s.forest.trees [] := by
  intro i a b hi hb ha hpart hfree
  obtain ⟨last, first, blanks, hlast, hfirst, hleading, hblanks, hstop⟩ :=
    h.texted.adjoined i a b hi hb ha hpart hfree
  refine ⟨last, first, blanks, hlast, hfirst, hleading, hblanks,
    hstop.imp id fun ⟨hleaf, hmark⟩ => ⟨hleaf, ?_⟩⟩
  have hmatch : ">>".toList <+: textAll (s.forest.trees.drop (i + 1)) ++ s.scanner.rest := by
    simpa [Kind.marks, Text.startsWith_iff] using hmark
  have hshort := List.prefix_of_prefix_length_le hmatch (List.prefix_append _ _)
    (h.two_le_of_mark hk hb hpart hleaf hmatch)
  simpa [Kind.marks, Text.startsWith_iff] using hshort

end Lined

lemma textStep_done (hg : s.Good) {levels : Nat} {first : Mode} {found b : Bool}
    (h : (textStep levels first found).answer s = .done b) :
    b = found ∧ (textStep levels first found).after s =
      s.look (if found = true then .text else first) ∧
      s.kindAt (if found = true then .text else first) ≠ .text := by
  unfold textStep at h ⊢
  generalize (if found = true then Mode.text else first) = mode at h ⊢
  rw [answer_bind, hg.answer_peekKind, hg.after_peekKind] at h
  rw [after_bind, hg.answer_peekKind, hg.after_peekKind]
  split at h
  · simp at h
  · simp at h
  · simp at h
  · simp at h
  · next hk _ _ _ => exact ⟨by simpa using h.symm, rfl, hk⟩

/-- **The parts of a line meet**, but for blanks in front of `>>`. -/
lemma textRow_lineText (hg : s.Good) (levels : Nat) (first : Mode)
    (hfound : (loop (textStep levels first) false).answer s.start = true) :
    TextRow .lineText ((loop (textStep levels first) false).after s.start).forest.trees := by
  have hadvances : Advances Lined (textStep levels first) := fun found u hu h b hb => by
    have hstep := h.step hu levels first
    rw [hb] at hstep
    exact ⟨(advances_textStep levels first hu trivial hb).1, hstep⟩
  obtain ⟨found, u, hu, h, -, hdone, hafter⟩ :=
    loop_done (a := false) (fun _ => Rule.reads) hadvances
    (good_start hg) ⟨texted_nil rfl, by simp [ParserState.start, Forest.start], fun _ => rfl⟩
  rw [hfound] at hdone
  obtain ⟨rfl, hlook, hk⟩ := textStep_done hu hdone
  rw [hafter, hlook]
  exact ⟨fun _ c hc => (h.parts c (mem_trees.1 hc)).1, by simp, fun _ => h.adjoined hk⟩

/-! ### Text of commands -/

lemma meets_command {a c : Tree} {last : Token} (hs : s.scanner.Past last)
    (ha : a.tokens.getLast? = some last)
    (hc : c.tokens.head? = some (s.scanner.ahead .commandText).token)
    (hk : s.kindAt .commandText = .commandText ∨ s.kindAt .commandText = .leftBrace)
    (hleaf : s.kindAt .commandText = .commandText →
      c = .leaf (s.scanner.ahead .commandText).token) :
    Meets (Kind.marks .commandStmt) a c (c.text ++ []) := by
  refine meets_ahead hs ha hc rfl ?_ ?_ fun hends hkind htext => ?_
  · rcases hk with h | h <;> simp [h]
  · rcases hk with h | h <;> simp [h]
  · rw [← hkind] at hk hleaf
    obtain ⟨hcommand, hmark⟩ := Lexeme.commandText_at_mark hends hk
    obtain ⟨m, hm, hstart⟩ := List.any_eq_true.1 hmark
    rw [hleaf hcommand, text_leaf, List.append_nil]
    exact ⟨rfl, List.any_eq_true.2
      ⟨m, hm, Text.startsWith_iff.2 ((Text.startsWith_iff.1 hstart).trans htext)⟩⟩

/-- The text of a command so far: what is new behind the trees in `head` are parts. -/
structure Freed (head : List Tree) (s : ParserState) : Prop where
  texted : Texted (Kind.marks .commandStmt) [] s
  inner : ∃ ys, s.forest.inner = ys ++ head ∧ ∀ c ∈ ys, c.isPart = true

namespace Freed

variable {head : List Tree}

lemma look (h : Freed head s) : Freed head (s.look .commandText) := ⟨h.texted.look rfl, h.inner⟩

/-- A further part. -/
lemma add (h : Freed head s) {c : Tree} (hinner : u.forest.inner = c :: s.forest.inner)
    (hc : c.isPart = true) (htexted : Texted (Kind.marks .commandStmt) (c.text ++ []) s →
      Texted (Kind.marks .commandStmt) [] u) : Freed head u := by
  refine ⟨htexted ⟨h.texted.adjoined.append (c.text ++ []), h.texted.last⟩, ?_⟩
  obtain ⟨ys, hys, hparts⟩ := h.inner
  exact ⟨c :: ys, by rw [hinner, hys]; rfl, List.forall_mem_cons.2 ⟨hc, hparts⟩⟩

/-- A step over the text of a command. -/
lemma step (h : Freed head s) (hg : s.Good) (levels : Nat) (found : Bool) :
    Freed head ((freeStep levels found).after s) := by
  have hw := hg.look .commandText
  have hlook := h.look
  unfold freeStep
  rw [after_bind, hg.answer_peekKind, hg.after_peekKind, ← kindAt_look]
  generalize s.look .commandText = w at hw hlook ⊢
  split
  · next hk =>
    have hprose : (w.kindAt .commandText).isProse = true := by
      rw [hk]
      rfl
    rw [after_bind, hw.after_advance, if_neg (by simp [hk])]
    refine hlook.add (c := .leaf (w.scanner.ahead .commandText).token) rfl hprose fun hmore => ?_
    refine Texted.take hw hprose (by simpa using hmore) fun _ a last ha hs => ?_
    simpa using meets_command hs ha rfl (.inl hk) fun _ => rfl
  · next hk =>
    obtain ⟨cs, hinner, hfirst, hlast⟩ := inner_interpolation hw levels hk
    refine hlook.add hinner rfl fun hmore =>
      Texted.interpolation hinner hlast hmore fun _ a last ha hs => ?_
    exact meets_command hs ha hfirst (.inr hk) (by simp [hk])
  · exact hlook

end Freed

/-- What is no part of a text. -/
def Apart (t : Tree) : Prop := t.isPart = false

lemma adds_apart {α : Type} {k : Kind} (hk : k ≠ .interpolation) {p : Parser α} (hr : Readable p)
    {Q : Tree → Prop} (hp : Adds true Q p) : Adds true Apart (node k p) :=
  .inNode hr hp fun _ _ => by simpa [Apart, isPart] using hk

instance : Tolerant fun _ => True := ⟨fun _ _ => trivial, fun _ _ => trivial, fun _ _ => trivial⟩

instance : Adds true Apart freeRest := by
  have heat {mode : Mode} {k : Kind} (hk : k.isProse = false) (hne : k ≠ .eof) :
      Adds true Apart (eat mode k) :=
    .eat mode (fun token h => by rw [Apart, isPart, h, hk]) hne
  have hclose : Adds true Apart (eat .commandText .commandEnd) := heat rfl (by simp)
  have hnewline : Adds true Apart (eat .text .newline) := heat rfl (by simp)
  have hhashtag : Adds true Apart hashtag :=
    adds_apart (Q := fun _ => True) (by simp) inferInstance inferInstance
  have hskip : Adds true Apart (skipLine .text) := by
    have : Adds true Apart (node .error (advance .text >>= fun _ => advanceLine)) :=
      adds_apart (Q := ErrorPart fun _ => True) (by simp) inferInstance inferInstance
    unfold skipLine
    infer_instance
  have hline : Adds true Apart (endOfLine .text) := by
    unfold endOfLine errorLine eatNewline
    infer_instance
  have hall : Adds true Apart hashtags := by
    unfold hashtags
    infer_instance
  unfold freeRest
  dsimp only
  infer_instance

/-- A command starts with a token, or with nothing at the end of the text. -/
lemma freed_advance (hg : s.Good) :
    ∃ us vs : List Tree, Freed (vs ++ us) ((advance .statement).after s.start) ∧
    (∀ c ∈ us, c.isPart = false) ∧ ∀ c ∈ vs, c.isPart = true := by
  have hs := good_start hg
  rw [hs.after_advance]
  split
  · exact ⟨[], [], ⟨texted_nil rfl, [], rfl, by simp⟩, by simp⟩
  · cases hk : (s.start.kindAt .statement).isProse
    · refine ⟨[.leaf _], [], ⟨?_, [], rfl, by simp⟩, List.forall_mem_singleton.2 hk, by simp⟩
      exact Texted.add (texted_nil rfl) rfl (fun hpart => absurd (hk.symm.trans hpart) (by simp))
        fun hpart => absurd (hk.symm.trans hpart) (by simp)
    · refine ⟨[], [.leaf _], ⟨?_, [], rfl, by simp⟩, by simp, List.forall_mem_singleton.2 hk⟩
      exact Texted.take hs hk (texted_nil rfl) fun hold => absurd rfl hold

/-- **The parts of a command meet**, but for blanks in front of `//`, `#` and `<<`. -/
lemma textRow_freeCommand (hg : s.Good) (levels : Nat) : TextRow .commandStmt
    ((advance .statement >>= fun _ => freeText levels >>= fun _ => freeRest).after
      s.start).forest.trees := by
  obtain ⟨us, vs, hfirst, hus, hvs⟩ := freed_advance hg
  have hu := Rule.good (advance .statement) (good_start hg)
  have hkeeps : ∀ ⦃found v⦄, v.Good → Freed (vs ++ us) v →
      Freed (vs ++ us) ((freeStep levels found).after v) :=
    fun found _ hv h => h.step hv levels found
  have htext :=
    loop_keeps (I := fun _ v => Freed (vs ++ us) v) (a := false) (fun _ => Rule.reads)
      hkeeps hu hfirst
  have hv := Rule.good (loop (freeStep levels) false) hu
  rw [after_bind, freeText, bind_assoc, after_bind]
  have hrest (found : Bool) : Adds true Apart
      ((if !found then error .commandText "expected a command" else pure ()) >>=
        fun _ => freeRest) :=
    inferInstance
  obtain ⟨ws, hws, hapart⟩ := ((hrest _).grown hv).inner
  obtain ⟨ys, hys, hparts⟩ := htext.inner
  refine ⟨by simp,
    fun _ => ⟨us.reverse, (ys ++ vs).reverse, ws.reverse, ?_, fun c hc => ?_, fun c hc => ?_⟩,
    fun _ => ?_⟩
  · rw [Forest.trees, hws, hys]
    simp
  · rcases List.mem_append.1 hc with hc | hc
    · exact hus c (List.mem_reverse.1 hc)
    · exact hapart c (List.mem_reverse.1 hc)
  · exact List.forall_mem_append.2 ⟨hparts, hvs⟩ c (List.mem_reverse.1 hc)
  · rw [Forest.trees, hws, List.reverse_append]
    exact htext.texted.adjoined.extend fun d hd => hapart d (List.mem_reverse.1 hd)

end Parser

end DialogueScript
