import DialogueScript.Proofs.Expression.Term
import DialogueScript.Proofs.Grammar.Course
import DialogueScript.Proofs.Grammar.Expression

/-!
The tokens of a term that is laid out in a text are the ones that a scanner finds there.
-/

namespace DialogueScript

open Scanner Text

namespace Piece

/-- The words of expressions are spelled by words, each its own. -/
lemma keyword_spelling {k : Kind} (hk : k ∈ exprKeywords) :
    isWord k.chars = true ∧ keywordIn? exprKeywords k.chars = some k := by
  have h : ∀ k ∈ exprKeywords, isWord k.chars = true ∧
      keywordIn? exprKeywords k.chars = some k := by
    decide
  exact h k hk

section
variable {w b r : Text}

lemma facing_word (hw : isWord w = true) {k : Kind}
    (hk : (keywordIn? exprKeywords w).getD .ident = k) (hb : b.all isBlank = true)
    (he : EndsWord (b ++ r)) (hr : Unspaced r) :
    Facing .expr k w b r := by
  have hlex : Lexeme.expr .expr (w ++ (b ++ r)) = ⟨k, w.length, none⟩ := by
    rw [Lexeme.expr_word hw he, ← hk]
    rfl
  have hplain : k = .ident ∨ k ∈ exprKeywords := by
    rcases hkey : keywordIn? exprKeywords w with _ | j
    · exact .inl (by simp [← hk, hkey])
    · refine .inr ?_
      obtain rfl : j = k := by simpa [hkey] using hk
      exact List.mem_of_find?_eq_some hkey
  have hkinds : k.isStructural = false ∧ k ≠ .newline ∧ k ≠ .eof ∧ k ≠ .hash ∧ k ≠ .commandEnd ∧
      keepsBlanks k = false := by
    have hall : ∀ k ∈ exprKeywords, k.isStructural = false ∧ k ≠ .newline ∧ k ≠ .eof ∧ k ≠ .hash ∧
        k ≠ .commandEnd ∧ keepsBlanks k = false := by decide
    rcases hplain with rfl | hmem
    · decide
    · exact hall k hmem
  obtain ⟨c, cs, rfl, hc⟩ := Lexeme.head_word hw
  exact facing_expr (.inl rfl) hc hlex ⟨hkinds.1, hkinds.2.1, hkinds.2.2.1, hkinds.2.2.2.1,
    hkinds.2.2.2.2.1⟩ (.inl hkinds.2.2.2.2.2) hb hr

lemma facing_keyword {k : Kind} (hk : k ∈ exprKeywords) (hb : b.all isBlank = true)
    (he : EndsWord (b ++ r)) (hr : Unspaced r) : Facing .expr k k.chars b r := by
  obtain ⟨h1, h2⟩ := keyword_spelling hk
  exact facing_word h1 (by rw [h2]; rfl) hb he hr

lemma facing_name (hw : isWord w = true) (hb : b.all isBlank = true) (he : EndsWord (b ++ r))
    (hr : Unspaced r) : Facing .name .ident w b r := by
  have hlex : Lexeme.expr .name (w ++ (b ++ r)) = ⟨.ident, w.length, none⟩ := by
    rw [Lexeme.expr_word hw he]
    rfl
  obtain ⟨c, cs, rfl, hc⟩ := Lexeme.head_word hw
  exact facing_expr (.inr (.inl rfl)) hc hlex (by decide) (.inl rfl) hb hr

lemma facing_number {whole : Text} {fraction : Option Text} (hw : isDigits whole = true)
    (hf : fraction.all isDigits = true) (hb : b.all isBlank = true) (he : EndsNumber (b ++ r))
    (hr : Unspaced r) : Facing .expr .number (Lexeme.numberText whole fraction) b r := by
  have hlex := Lexeme.expr_number .expr hw hf he
  obtain ⟨c, cs, hcs, hc⟩ := Lexeme.head_numberText hw fraction
  have hpart := Lexeme.isWordPart_of_isDigit hc
  rw [hcs] at hlex ⊢
  exact facing_expr (.inl rfl) ⟨Lexeme.not_isBlank_of_isWordPart hpart,
    Lexeme.not_isLineBreak_of_isWordPart hpart⟩ hlex (by decide) (.inl rfl) hb hr

lemma facing_string {contents : Text} (h : Lexeme.isStringBody contents = true)
    (hb : b.all isBlank = true) (hr : Unspaced r) :
    Facing .expr .string (Lexeme.stringText contents) b r :=
  facing_expr (.inl rfl) (by decide) (Lexeme.expr_string h (b ++ r)) (by decide) (.inl rfl) hb hr

/-- The symbols that nothing behind them makes longer. -/
lemma facing_single {mode : Mode} (hm : mode = .expr ∨ mode = .name ∨ mode = .command) {k : Kind}
    (hk : k ∈ [Kind.leftParen, .rightParen, .comma, .dot, .dollar]) (hb : b.all isBlank = true)
    (hr : Unspaced r) : Facing mode k k.chars b r := by
  have hlex : Lexeme.expr mode (k.chars ++ (b ++ r)) = ⟨k, k.chars.length, none⟩ := by
    have hmem : k ∈ [Kind.leftParen, .rightParen, .comma, .dot, .dollar, .rightBrace] := by
      simp only [List.mem_cons] at hk ⊢
      tauto
    unfold Lexeme.expr
    rw [Lexeme.spelledAt?_single hmem]
    rfl
  have hkinds : ∃ c cs, k.chars = c :: cs ∧ (isBlank c = false ∧ isLineBreak c = false) ∧
      (k.isStructural = false ∧ k ≠ .newline ∧ k ≠ .eof ∧ k ≠ .hash ∧ k ≠ .commandEnd) ∧
      keepsBlanks k = false := by
    simp only [List.mem_cons, List.not_mem_nil, or_false] at hk
    rcases hk with rfl | rfl | rfl | rfl | rfl <;> exact ⟨_, _, rfl, by decide⟩
  obtain ⟨c, cs, hch, h1, h2, h3⟩ := hkinds
  rw [hch] at hlex ⊢
  exact facing_expr hm h1 hlex h2 (.inl h3) hb hr

lemma facing_rightBrace (hr : Unspaced r) :
    Facing .expr .rightBrace Kind.rightBrace.chars [] r := by
  have hlex : Lexeme.expr .expr (Kind.rightBrace.chars ++ ([] ++ r)) =
      ⟨.rightBrace, Kind.rightBrace.chars.length, none⟩ := by
    unfold Lexeme.expr
    rw [Lexeme.spelledAt?_single (by decide)]
    rfl
  exact facing_expr (.inl rfl) (by decide) hlex (by decide) (.inr rfl) rfl hr

/-- An operator, spelled as a symbol or as a word. -/
lemma facing_operator {k : Kind} (hk : (BinaryOp.ofKind? k).isSome ∨ (UnaryOp.ofKind? k).isSome)
    (hb : b.all isBlank = true) (he : Parted k.chars (b ++ r)) (hr : Unspaced r) :
    Facing .expr k k.chars b r := by
  have hsplit : k ∈ Lexeme.operatorSymbols ∨ k ∈ exprKeywords := by
    revert hk
    cases k <;> decide
  rcases hsplit with hs | hs
  · have hlex : Lexeme.expr .expr (k.chars ++ (b ++ r)) = ⟨k, k.chars.length, none⟩ := by
      unfold Lexeme.expr
      rw [Lexeme.spelledAt?_operator hs (he.operator k hs rfl)]
      rfl
    have hkinds : (∃ c cs, k.chars = c :: cs ∧ (isBlank c = false ∧ isLineBreak c = false)) ∧
        (k.isStructural = false ∧ k ≠ .newline ∧ k ≠ .eof ∧ k ≠ .hash ∧ k ≠ .commandEnd) ∧
        keepsBlanks k = false := by
      simp only [Lexeme.operatorSymbols, List.mem_cons, List.not_mem_nil, or_false] at hs
      rcases hs with rfl | rfl | rfl | rfl | rfl | rfl | rfl | rfl | rfl | rfl | rfl | rfl | rfl |
        rfl | rfl <;> exact ⟨⟨_, _, rfl, by decide⟩, by decide⟩
    obtain ⟨⟨c, cs, hch, h1⟩, h2, h3⟩ := hkinds
    rw [hch] at hlex ⊢
    exact facing_expr (.inl rfl) h1 hlex h2 (.inl h3) hb hr
  · exact facing_keyword hs hb (he.word (keyword_spelling hs).1) hr

end

end Piece

namespace Term

lemma solid_of_isWord {w : Text} (h : isWord w = true) : w.Solid := by
  obtain ⟨c, cs, rfl, hc, -⟩ := Lexeme.head_word h
  exact ⟨c, cs, rfl, hc⟩

lemma solid_of_isPlainWord {w : Text} (h : isPlainWord w = true) : w.Solid := by
  simp only [isPlainWord, Bool.and_eq_true] at h
  exact solid_of_isWord h.1

lemma solid_numberText {whole : Text} {fraction : Option Text} (h : isDigits whole = true) :
    (Lexeme.numberText whole fraction).Solid := by
  obtain ⟨c, cs, hcs, hc⟩ := Lexeme.head_numberText h fraction
  exact ⟨c, cs, hcs, Lexeme.not_isBlank_of_isWordPart (Lexeme.isWordPart_of_isDigit hc)⟩

lemma solid_operator {k : Kind} (h : (BinaryOp.ofKind? k).isSome ∨ (UnaryOp.ofKind? k).isSome) :
    Text.Solid k.chars := by
  revert h
  cases k <;> first
    | exact fun _ => ⟨_, _, rfl, by decide⟩
    | exact fun h => absurd h (by decide)

mutual

/-- The tokens of a term start with something other than a blank. -/
lemma solid_tokens : ∀ e : Term, e.spelled = true → ∀ w ∈ e.tokens, w.Solid
  | number whole fraction, h => by
    simp only [spelled, Bool.and_eq_true] at h
    simpa [tokens] using solid_numberText h.1
  | string contents, _ => by
    simp only [tokens, List.mem_singleton, forall_eq]
    exact ⟨_, _, rfl, by decide⟩
  | var name, h => by
    simp only [tokens, List.mem_cons, List.not_mem_nil, or_false, forall_eq_or_imp, forall_eq]
    exact ⟨⟨_, _, rfl, by decide⟩, solid_of_isWord h⟩
  | ident name, h => by
    simpa [tokens] using solid_of_isPlainWord h
  | truth value, _ => by
    simp only [tokens, List.mem_singleton, forall_eq]
    cases value <;> exact ⟨_, _, rfl, by decide⟩
  | null, _ => by
    simp only [tokens, List.mem_singleton, forall_eq]
    exact ⟨_, _, rfl, by decide⟩
  | member type name, h => by
    simp only [spelled, Bool.and_eq_true] at h
    simp only [tokens, List.mem_append, Option.mem_toList, List.mem_cons,
      List.not_mem_nil, or_false]
    rintro w (hw | rfl | rfl)
    · obtain rfl : type = some w := hw
      exact solid_of_isPlainWord h.1
    · exact ⟨_, _, rfl, by decide⟩
    · exact solid_of_isWord h.2
  | call name args, h => by
    simp only [spelled, Bool.and_eq_true] at h
    simp only [tokens, List.mem_cons, List.mem_append, List.not_mem_nil, or_false]
    rintro w (rfl | rfl | hw | rfl)
    · exact solid_of_isPlainWord h.1
    · exact ⟨_, _, rfl, by decide⟩
    · refine solid_moreTokens args h.2 w ?_
      rcases args with _ | ⟨a, as⟩
      · simp [argTokens] at hw
      · simp only [argTokens, moreTokens, List.mem_cons] at hw ⊢
        exact .inr hw
    · exact ⟨_, _, rfl, by decide⟩
  | paren inner, h => by
    simp only [tokens, List.mem_cons, List.mem_append, List.not_mem_nil, or_false]
    rintro w (rfl | hw | rfl)
    · exact ⟨_, _, rfl, by decide⟩
    · exact solid_tokens inner h w hw
    · exact ⟨_, _, rfl, by decide⟩
  | unary op operand, h => by
    simp only [spelled, Bool.and_eq_true] at h
    simp only [tokens, List.mem_cons]
    rintro w (rfl | hw)
    · exact solid_operator (.inr h.1.1)
    · exact solid_tokens operand h.2 w hw
  | binary op lhs rhs, h => by
    simp only [spelled, Bool.and_eq_true] at h
    simp only [tokens, List.mem_append, List.mem_cons]
    rintro w (hw | rfl | hw)
    · exact solid_tokens lhs h.1.2 w hw
    · exact solid_operator (.inl (by
        by_contra hnone
        rw [Option.not_isSome_iff_eq_none] at hnone
        simp [hnone] at h))
    · exact solid_tokens rhs h.2 w hw

lemma solid_moreTokens : ∀ es : List Term, spelledAll es = true → ∀ w ∈ moreTokens es, w.Solid
  | [], _ => by simp [moreTokens]
  | a :: as, h => by
    simp only [spelledAll, Bool.and_eq_true] at h
    simp only [moreTokens, List.mem_cons, List.mem_append]
    rintro w (rfl | hw | hw)
    · exact ⟨_, _, rfl, by decide⟩
    · exact solid_tokens a h.1 w hw
    · exact solid_moreTokens as h.2 w hw

end

end Term

end DialogueScript
