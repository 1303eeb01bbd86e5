import DialogueScript.Proofs.Expression.Reading
import DialogueScript.Proofs.Parse.LexicalErrors
import DialogueScript.Proofs.Scanner.Keywords

/-!
String literals and the texts they stand for. A text can be written in many ways, since any of its
characters may have a backslash in front of it; a literal stands for one text only. The scanner
finds where a literal ends and the reader of the tree resolves its escapes, each by a pass of its
own.
-/

namespace DialogueScript

/-! ### Writing and reading -/

/-- The text `contents` writes `value` between quotes: a quote and a backslash have a backslash in
front of them, and any other character may have one. -/
inductive Writes : Text → Text → Prop
  | nil : Writes [] []
  | plain {c : Char} {value contents : Text} : c ≠ '"' → c ≠ '\\' → isLineBreak c = false →
      Writes value contents → Writes (c :: value) (c :: contents)
  | escaped {c : Char} {value contents : Text} : isLineBreak c = false →
      Writes value contents → Writes (c :: value) ('\\' :: c :: contents)

variable {value contents : Text}

lemma unescape_cons {c : Char} (h : c ≠ '\\') (t : Text) : unescape (c :: t) = c :: unescape t := by
  cases t with
  | nil => simp [unescape, h]
  | cons d t => simp [unescape, h]

namespace Writes

/-- What is written can stand between quotes. -/
lemma isStringBody (h : Writes value contents) : Lexeme.isStringBody contents = true := by
  induction h with
  | nil => rfl
  | plain hquote hslash hbreak _ ih =>
    rw [Lexeme.isStringBody.eq_def]
    simp [hslash, Lexeme.isStringPart, hquote, hbreak, ih]
  | escaped hbreak _ ih =>
    rw [Lexeme.isStringBody.eq_def]
    simp [hbreak, ih]

/-- A text can be read back from each way to write it. -/
lemma unescape_eq (h : Writes value contents) : unescape contents = value := by
  induction h with
  | nil => rfl
  | plain _ hslash _ _ ih => rw [unescape_cons hslash, ih]
  | escaped _ _ ih => simp [unescape, ih]

/-- Whatever can stand between quotes writes what is read back from it. -/
lemma of_isStringBody (h : Lexeme.isStringBody contents = true) :
    Writes (unescape contents) contents := by
  induction contents using Lexeme.isStringBody.induct with
  | case1 => exact .nil
  | case2 => simp [Lexeme.isStringBody] at h
  | case3 c cs ih =>
    simp only [Lexeme.isStringBody, if_true, Bool.and_eq_true, Bool.not_eq_true'] at h
    have hvalue : unescape ('\\' :: c :: cs) = c :: unescape cs := by simp [unescape]
    rw [hvalue]
    exact .escaped h.1 (ih h.2)
  | case4 c cs hslash ih =>
    rw [Lexeme.isStringBody.eq_def] at h
    simp only [hslash, if_false, Lexeme.isStringPart, Bool.and_eq_true, Bool.not_eq_true',
      decide_eq_true_eq, ne_eq] at h
    obtain ⟨⟨⟨hquote, -⟩, hbreak⟩, hrest⟩ := h
    rw [unescape_cons hslash]
    exact .plain hquote hslash hbreak (ih hrest)

lemma stringValue?_eq (h : Writes value contents) :
    stringValue? (Lexeme.stringText contents) = some value := by
  simp [Lexeme.stringText, stringValue?, h.unescape_eq]

end Writes

namespace Lexeme

/-! ### Where a literal ends -/

/-- A quote that closes a literal stands behind something that can stand between quotes. -/
lemma take_stringLength {t : Text} {n : Nat} (h : stringLength t = (n, true)) :
    ∃ contents, isStringBody contents = true ∧ t.take n = contents ++ ['"'] := by
  have hplain : isLineBreak '\\' = false := rfl
  induction t using isStringBody.induct generalizing n with
  | case1 => simp [stringLength] at h
  | case2 => simp [stringLength, hplain] at h
  | case3 d ds ih =>
    rw [stringLength.eq_def] at h
    cases hbreak : isLineBreak d with
    | true => simp [hplain, hbreak] at h
    | false =>
      rcases hds : stringLength ds with ⟨m, closed⟩
      obtain ⟨rfl, rfl⟩ : m + 2 = n ∧ closed = true := by simpa [hplain, hbreak, hds] using h
      obtain ⟨contents, hbody, htake⟩ := ih hds
      refine ⟨'\\' :: d :: contents, ?_, by simp [htake]⟩
      rw [isStringBody.eq_def]
      simp [hbreak, hbody]
  | case4 c cs hslash ih =>
    rw [stringLength.eq_def] at h
    cases hbreak : isLineBreak c with
    | true => simp [hbreak] at h
    | false =>
      by_cases hquote : c = '"'
      · subst hquote
        obtain rfl : 1 = n := by simpa [hbreak] using h
        exact ⟨[], rfl, by simp⟩
      · rcases hcs : stringLength cs with ⟨m, closed⟩
        obtain ⟨rfl, rfl⟩ : m + 1 = n ∧ closed = true := by
          simpa [hslash, hquote, hbreak, hcs] using h
        obtain ⟨contents, hbody, htake⟩ := ih hcs
        refine ⟨c :: contents, ?_, by simp [htake]⟩
        rw [isStringBody.eq_def]
        simp [isStringPart, hslash, hquote, hbreak, hbody]

/-- What an expression reads as a string is a literal. -/
lemma expr_string_take {mode : Mode} {t : Text} (h : (expr mode t).kind = .string) :
    ∃ contents, isStringBody contents = true ∧
      t.take (expr mode t).length = stringText contents := by
  have hsymbol : ∀ l, spelledAt? exprSymbols t = some l → l.kind ≠ .string := by
    intro l hl hk
    obtain ⟨k, hfind, rfl⟩ := Option.map_eq_some_iff.1 hl
    obtain rfl : k = .string := hk
    exact absurd (List.mem_of_find?_eq_some hfind) (by decide)
  have hword : ∀ w, (keywordIn? mode.keywords w).getD .ident ≠ .string := by
    intro w
    rcases hk : keywordIn? mode.keywords w with _ | k
    · simp
    · have hall : ∀ m : Mode, .string ∉ m.keywords := by
        intro m
        cases m <;> decide
      exact fun h => hall mode (h ▸ keywordIn?_mem hk)
  unfold expr at h ⊢
  rcases hs : spelledAt? exprSymbols t with _ | l
  · rw [hs, Option.getD_none] at h
    rw [Option.getD_none]
    rcases t with _ | ⟨c, cs⟩
    · simp at h
    · by_cases hquote : c = '"'
      · subst hquote
        rcases hlen : stringLength cs with ⟨n, closed⟩
        cases closed with
        | false => simp [string, hlen, failure] at h
        | true =>
          obtain ⟨contents, hbody, htake⟩ := take_stringLength hlen
          exact ⟨contents, hbody, by simp [string, hlen, htake, stringText]⟩
      · simp only [hquote, if_false] at h
        split at h
        · simp at h
        · split at h
          · exact absurd h (hword _)
          · simp [failure] at h
  · rw [hs, Option.getD_some] at h
    exact absurd h (hsymbol l hs)

lemma next_string_take {mode : Mode} {t : Text} (h : (next mode t).kind = .string) :
    ∃ contents, isStringBody contents = true ∧
      t.take (next mode t).length = stringText contents := by
  rcases next_mem_or_expr mode t with hmem | heq
  · exact absurd (h ▸ hmem) (by decide)
  · rw [heq] at h ⊢
    exact expr_string_take h

end Lexeme

/-! ### Tokens -/

/-- The own text of the token, if it is a string, is a literal. -/
def Token.IsLiteral (token : Token) : Prop :=
  token.kind = .string → ∃ value contents, Writes value contents ∧
    token.text = Lexeme.stringText contents ∧ stringValue? token.text = some value

namespace Scanner

variable {s : Scanner}

lemma Good.isLiteral (h : s.Good) (mode : Mode) : (s.ahead mode).token.IsLiteral := by
  intro hk
  have ht := h.takes mode
  generalize s.settle mode = c, s.ahead mode = l, s.after mode = s' at ht hk ⊢
  cases ht with
  | dedent | blank | indent => simp [Token.ofParts] at hk
  | mismatch p _ hline hd he hl => simp [hl, Token.ofParts] at hk
  | content _ hidle hblank hl =>
    subst hl
    rw [content_token] at hk ⊢
    obtain ⟨contents, hbody, htake⟩ := Lexeme.next_string_take hk
    have hwrites := Writes.of_isStringBody hbody
    have htext := Token.text_ofParts (c.leading mode) (Lexeme.next mode (c.body mode)).kind
      ((c.body mode).take (Lexeme.next mode (c.body mode)).length)
      (trailing mode (Lexeme.next mode (c.body mode)).kind
        ((c.body mode).drop (Lexeme.next mode (c.body mode)).length))
    exact ⟨_, contents, hwrites, htext.trans htake, by rw [htext, htake, hwrites.stringValue?_eq]⟩

/-- In front of a literal the next token of an expression is the literal, from its first quote to
its last, if no block is to be opened or closed first. -/
lemma Good.ahead_literal (h : s.Good) (hline : s.line = none)
    (hbody : Lexeme.isStringBody contents = true) {after : Text}
    (hrest : s.rest = Lexeme.stringText contents ++ after) :
    ∃ trailing, (s.ahead .expr).token =
      .ofParts [] .string (Lexeme.stringText contents) trailing := by
  have hfirst : s.rest = '"' :: (contents ++ '"' :: after) := by simp [hrest, Lexeme.stringText]
  have hgap : ∀ t, gap true true ('"' :: t) = [] := by
    intro t
    simp [gap, blankTrivia, commentTrivia, Text.startsComment, Text.startsWith, isBlank]
  have hnone : Text.lineBreak? (s.rest.drop (gapLength true true s.rest)) = none := by
    simp [hfirst, gapLength, hgap, Text.lineBreak?]
  have hlead : s.leading .expr = [] := by
    unfold leading
    split
    · rw [lineTrivia_of_none hnone, hfirst, hgap]
    · exact hfirst ▸ hgap _
  have hnext : Lexeme.next .expr s.rest = ⟨.string, (Lexeme.stringText contents).length, none⟩ := by
    rw [hrest]
    exact @Lexeme.expr_string .expr contents hbody after
  have hat : s.body .expr = s.rest := by simpa [hlead] using concat_leading s .expr
  have htake : s.rest.take (Lexeme.stringText contents).length = Lexeme.stringText contents := by
    rw [hrest, List.take_left]
  have ht := h.takes .expr
  rw [settle_of_insensitive s rfl] at ht
  generalize s.ahead .expr = l, s.after .expr = s' at ht ⊢
  cases ht with
  | dedent p hp => simp [hline] at hp
  | blank p b t' hm => simp at hm
  | indent p w hp => simp [hline] at hp
  | mismatch p _ hp => simp [hline] at hp
  | content _ _ _ hl =>
    subst hl
    rw [content_token, hlead, hat, hnext, htake]
    exact ⟨_, rfl⟩

end Scanner

open DialogueScript.Parser ParserState

/-! ### Reading -/

namespace Parser

variable {s : ParserState} {token : Token}

/-- In front of a string an operand is the string. -/
lemma primaryExpr_string (expr : Parser (Option Kind)) (hg : s.Good)
    (htoken : (s.scanner.ahead .expr).token = token) (hk : token.kind = .string) :
    (primaryExpr expr).answer s = some .stringExpr ∧
      ((primaryExpr expr).after s).forest = s.forest.add (.node .stringExpr [.leaf token]) := by
  have hkind : s.kindAt .expr = .string := by rw [kindAt, htoken, hk]
  have hstart := good_start (hg.look .expr)
  have hkind' : (s.look .expr).start.kindAt .expr = .string := by
    rw [kindAt_start, kindAt_look, hkind]
  have htake : (advance .expr).after (s.look .expr).start = (s.look .expr).start.take .expr := by
    rw [hstart.after_advance, hkind', if_neg (by decide)]
  have hahead : ((s.look .expr).start.scanner.ahead .expr).token = token := by
    rw [scanner_start, ParserState.look, ahead_looking, htoken]
  rw [primaryExpr, answer_bind, after_bind, hg.answer_peekKind, hg.after_peekKind, hkind]
  refine ⟨rfl, ?_⟩
  change ((node .stringExpr (advance .expr)).after (s.look .expr)).forest = _
  rw [after_node, htake, ParserState.take, hahead]
  rfl

end Parser

namespace Parse

/-- **A string literal stands for the text that it writes.** Whatever text without line breaks is
written, in whichever way, an expression finds one token there that is the literal to its last
quote, whatever follows it, and what is read from its node is the text. And every string token of a
parse, whatever the settings and whenever it is cancelled, is such a literal of the text that is
read from it. -/
theorem string_literals :
    (∀ value contents, Writes value contents →
      (∀ after, Lexeme.next .expr (Lexeme.stringText contents ++ after) =
        ⟨.string, (Lexeme.stringText contents).length, none⟩) ∧
      (∀ (s : Scanner) after, s.Good → s.line = none →
        s.rest = Lexeme.stringText contents ++ after →
        (s.bump .expr).1.token.kind = .string ∧
        (s.bump .expr).1.token.text = Lexeme.stringText contents ∧
        (s.bump .expr).1.kindRange =
          .ofSize s.offset (Text.size (Lexeme.stringText contents))) ∧
      ∀ (expr : Parser (Option Kind)) (s : ParserState) after, s.Good → s.scanner.line = none →
        s.scanner.rest = Lexeme.stringText contents ++ after →
        ∃ token : Token, token.kind = .string ∧ token.text = Lexeme.stringText contents ∧
          (primaryExpr expr).answer s = some .stringExpr ∧
          ((primaryExpr expr).after s).forest = s.forest.add (.node .stringExpr [.leaf token]) ∧
          Expr.ofTree? (.node .stringExpr [.leaf token]) = some (.string (some value))) ∧
    ∀ config t cancelAt, ∀ token ∈ (withCancel config t cancelAt).tree.tokens,
      token.kind = .string →
      ∃ value contents, Writes value contents ∧ token.text = Lexeme.stringText contents ∧
        stringValue? token.text = some value := by
  refine ⟨fun value contents hw => ⟨fun after => ?_, fun s after hg hline hrest => ?_,
    fun expr s after hg hline hrest => ?_⟩, fun config t cancelAt => ?_⟩
  · exact @Lexeme.expr_string .expr contents hw.isStringBody after
  · obtain ⟨trailing, htoken⟩ := hg.ahead_literal hline hw.isStringBody hrest
    rw [hg.bump_eq]
    simp only [(hg.takes .expr).kindRange_eq, Scanner.settle_offset, htoken]
    exact ⟨rfl, Token.text_ofParts _ _ _ _, by simp [Token.range_ofParts, Text.size]⟩
  · obtain ⟨trailing, htoken⟩ := hg.scanner.ahead_literal hline hw.isStringBody hrest
    obtain ⟨h1, h2⟩ := primaryExpr_string expr hg htoken rfl
    have htext := Token.text_ofParts [] .string (Lexeme.stringText contents) trailing
    refine ⟨_, rfl, htext, h1, h2, ?_⟩
    have hvalue : tokenTextAmong? .string
        [.leaf (.ofParts [] .string (Lexeme.stringText contents) trailing)] =
        some (Lexeme.stringText contents) := congrArg some htext
    rw [Expr.ofTree?, hvalue, Option.bind_some, hw.stringValue?_eq]
  · exact forall_tokens (P := Token.IsLiteral) (fun _ mode h => h.isLiteral mode)
      (fun t hk => by simp at hk) config t cancelAt

/-- An escaped backslash in front of the closing quote, and another quote behind that. -/
theorem string_literals_escaped :
    ∃ token : Token, token.text = "\"\\é\\\\\"".toList ∧
      ((primaryExpr (pure none)).after { scanner := .start {} "\"\\é\\\\\"\"".toList }).forest =
        Forest.add {} (.node .stringExpr [.leaf token]) ∧
      Expr.ofTree? (.node .stringExpr [.leaf token]) = some (.string (some ['é', '\\'])) := by
  have hw : Writes ['é', '\\'] ['\\', 'é', '\\', '\\'] := .escaped rfl (.escaped rfl .nil)
  obtain ⟨token, -, h1, -, h2, h3⟩ := (string_literals.1 _ _ hw).2.2 (pure none)
    { scanner := .start {} "\"\\é\\\\\"\"".toList } ['"']
    ⟨Scanner.good_atLine {} _ 0 IndentStack.rising_empty, rfl⟩ rfl rfl
  exact ⟨token, h1, h2, h3⟩

end Parse

end DialogueScript
