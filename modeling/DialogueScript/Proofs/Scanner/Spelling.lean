import DialogueScript.Proofs.Scanner.Bump

/-!
Tokens that stand in a text the way they are written: the words, numbers, strings and symbols of an
expression, up to a character that no token goes on with.
-/

namespace DialogueScript

/-- A letter or underscore, and then letters, digits and underscores. -/
def isWord : Text → Bool
  | [] => false
  | c :: cs => isWordStart c && cs.all isWordPart

/-- At least one digit, and nothing else. -/
def isDigits (t : Text) : Bool := !t.isEmpty && t.all Char.isDigit

namespace Text

/-- A text that goes on with a character at which a word, a number or an operator ends. -/
def Breaks (t : Text) : Prop := ∃ c cs, t = c :: cs ∧ (c = ' ' ∨ c = '\t' ∨ c = '\x7d')

/-- A text that goes on with nothing that could belong to a word. -/
def EndsWord (t : Text) : Prop := ∀ c, t.head? = some c → isWordPart c = false

/-- A text that goes on with nothing that could belong to a number. -/
def EndsNumber (t : Text) : Prop := EndsWord t ∧ t.head? ≠ some '.'

lemma Breaks.endsNumber {t : Text} (h : Breaks t) : EndsNumber t := by
  obtain ⟨c, cs, rfl, hc⟩ := h
  refine ⟨?_, ?_⟩
  · rintro _ ⟨⟩
    rcases hc with rfl | rfl | rfl <;> decide
  · rcases hc with rfl | rfl | rfl <;> simp

end Text

open Text

lemma blankTrivia_append {b r : Text} (hb : b.all isBlank = true) (hr : Unspaced r) :
    Trivia.concat (blankTrivia (b ++ r)) = b := by
  have h : (b ++ r).takeWhile isBlank = b := Text.takeWhile_append hb hr
  rw [blankTrivia, h]
  rcases b with _ | ⟨c, cs⟩ <;> simp [Trivia.concat]

lemma blankTrivia_eq_nil {t : Text} (h : Unspaced t) : blankTrivia t = [] := by
  rcases t with _ | ⟨c, cs⟩
  · rfl
  · simp [blankTrivia, h c rfl]

namespace Lexeme

/-! ### Symbols -/

/-- A symbol that nothing behind it makes longer. -/
lemma spelledAt?_single {k : Kind} (hk : k ∈ [Kind.leftParen, .rightParen, .comma, .dot, .dollar,
    .rightBrace]) (t : Text) : spelledAt? exprSymbols (k.chars ++ t) = some (spelled k) := by
  simp only [List.mem_cons, List.not_mem_nil, or_false] at hk
  rcases hk with rfl | rfl | rfl | rfl | rfl | rfl <;> rfl

/-- The operators that are symbols. -/
def operatorSymbols : List Kind :=
  [.amp2, .pipe2, .caret, .eq2, .neq, .lt, .gt, .lteq, .gteq, .plus, .minus, .star,
   .slash, .percent, .bang]

lemma spelledAt?_operator {k : Kind} (hk : k ∈ operatorSymbols) {t : Text} (ht : Breaks t) :
    spelledAt? exprSymbols (k.chars ++ t) = some (spelled k) := by
  obtain ⟨c, cs, rfl, hc⟩ := ht
  simp only [operatorSymbols, List.mem_cons, List.not_mem_nil, or_false] at hk
  rcases hc with rfl | rfl | rfl <;>
    rcases hk with rfl | rfl | rfl | rfl | rfl | rfl | rfl | rfl | rfl | rfl | rfl | rfl | rfl |
      rfl | rfl <;>
    rfl

/-- No symbol starts with a character of a word or with a quote. -/
lemma spelledAt?_exprSymbols_none {c : Char} (hc : isWordPart c = true ∨ c = '"') (t : Text) :
    spelledAt? exprSymbols (c :: t) = none := by
  have hall : ∀ k ∈ exprSymbols, ∃ d ds, k.chars = d :: ds ∧ isWordPart d = false ∧ d ≠ '"' := by
    have : exprSymbols.all (fun k => k.chars.head?.any fun d => !isWordPart d && d != '"') =
        true := by
      decide
    intro k hk
    have hk := List.all_eq_true.1 this k hk
    rcases hch : k.chars with _ | ⟨d, ds⟩ <;> rw [hch] at hk
    · simp at hk
    · exact ⟨d, ds, rfl, by simpa using hk⟩
  simp only [spelledAt?, Option.map_eq_none_iff, List.find?_eq_none]
  intro k hk
  obtain ⟨d, ds, hch, h1, h2⟩ := hall k hk
  rw [hch]
  have hne : d ≠ c := by
    rintro rfl
    rcases hc with hc | hc
    · simp [h1] at hc
    · exact h2 hc
  simp [List.isPrefixOf, hne]

/-! ### In all modes -/

lemma next_expr {mode : Mode} (hm : mode = .expr ∨ mode = .name ∨ mode = .command) {c : Char}
    {cs : Text} (hc : isLineBreak c = false) : next mode (c :: cs) = expr mode (c :: cs) := by
  unfold next
  rw [if_neg (by simp), lineBreak?_cons _ hc]
  rcases hm with rfl | rfl | rfl <;> rfl

lemma not_isLineBreak_of_isWordPart {c : Char} (h : isWordPart c = true) :
    isLineBreak c = false := by
  by_contra hb
  have := Text.not_isWordPart_of_break (c := c) (by simpa using hb)
  simp [h] at this

lemma isWordPart_of_isWordStart {c : Char} (h : isWordStart c = true) : isWordPart c = true := by
  simp only [isWordStart, isWordPart, Char.isAlphanum, Bool.or_eq_true] at h ⊢
  tauto

lemma not_isBlank_of_isWordPart {c : Char} (h : isWordPart c = true) : isBlank c = false := by
  by_contra hb
  simp only [Bool.not_eq_false, isBlank, Bool.or_eq_true, decide_eq_true_eq] at hb
  rcases hb with rfl | rfl <;> simp [isWordPart] at h

lemma not_isDigit_of_isWordStart {c : Char} (h : isWordStart c = true) : c.isDigit = false := by
  by_contra hd
  simp only [Bool.not_eq_false, Char.isDigit, Bool.and_eq_true, decide_eq_true_eq, ge_iff_le,
    UInt32.le_iff_toNat_le, Char.reduceVal, UInt32.reduceToNat] at hd
  have hstart : isWordStart c = (decide (c.val ≥ 'A'.val ∧ c.val ≤ 'Z'.val) ||
      (c.val ≥ 'a'.val && c.val ≤ 'z'.val) || decide (c = '_')) := rfl
  simp only [hstart, Bool.or_eq_true, Bool.and_eq_true, decide_eq_true_eq, UInt32.le_iff_toNat_le,
    ge_iff_le, Char.reduceVal, UInt32.reduceToNat] at h
  rcases h with (h | h) | rfl
  · omega
  · omega
  · exact absurd hd (by decide)

/-! ### Words -/

/-- A word starts neither with a blank nor with a line break. -/
lemma head_word {w : Text} (h : isWord w = true) :
    ∃ c cs, w = c :: cs ∧ isBlank c = false ∧ isLineBreak c = false := by
  rcases w with _ | ⟨c, cs⟩
  · simp [isWord] at h
  · simp only [isWord, Bool.and_eq_true] at h
    have hpart := isWordPart_of_isWordStart h.1
    exact ⟨c, cs, rfl, not_isBlank_of_isWordPart hpart, not_isLineBreak_of_isWordPart hpart⟩

lemma word?_append {w t : Text} (hw : isWord w = true) (ht : EndsWord t) :
    word? (w ++ t) = some w := by
  rcases w with _ | ⟨c, cs⟩
  · simp [isWord] at hw
  · simp only [isWord, Bool.and_eq_true] at hw
    rw [List.cons_append, word?, if_pos hw.1, takeWhile_append hw.2 ht]

lemma expr_word {mode : Mode} {w t : Text} (hw : isWord w = true) (ht : EndsWord t) :
    expr mode (w ++ t) = ⟨(keywordIn? mode.keywords w).getD .ident, w.length, none⟩ := by
  have hword := word?_append hw ht
  rcases w with _ | ⟨c, cs⟩
  · simp [isWord] at hw
  · simp only [isWord, Bool.and_eq_true] at hw
    have hpart := isWordPart_of_isWordStart hw.1
    have hquote : c ≠ '"' := by
      rintro rfl
      simp [isWordStart] at hw
    have hdigit := not_isDigit_of_isWordStart hw.1
    rw [List.cons_append] at hword ⊢
    rw [expr, spelledAt?_exprSymbols_none (.inl hpart)]
    simp [hquote, hdigit, hword]

/-! ### Numbers and strings -/

/-- A number as it is written: digits, and a dot with more digits if there is a fraction. -/
def numberText (whole : Text) : Option Text → Text
  | none => whole
  | some fraction => whole ++ '.' :: fraction

lemma isWordPart_of_isDigit {c : Char} (h : c.isDigit = true) : isWordPart c = true := by
  simp [isWordPart, Char.isAlphanum, h]

lemma head_digits {w : Text} (h : isDigits w = true) :
    ∃ c cs, w = c :: cs ∧ c.isDigit = true := by
  simp only [isDigits, Bool.and_eq_true] at h
  rcases w with _ | ⟨c, cs⟩
  · simp at h
  · exact ⟨c, cs, rfl, List.all_eq_true.1 h.2 c (by simp)⟩

lemma head_numberText {whole : Text} (h : isDigits whole = true) (fraction : Option Text) :
    ∃ c cs, numberText whole fraction = c :: cs ∧ c.isDigit = true := by
  obtain ⟨c, cs, rfl, hc⟩ := head_digits h
  cases fraction <;> exact ⟨c, _, rfl, hc⟩

lemma EndsNumber.not_isDigit {t : Text} (ht : EndsNumber t) :
    ∀ c, t.head? = some c → c.isDigit = false := by
  intro c hc
  by_contra hd
  have := isWordPart_of_isDigit (c := c) (by simpa using hd)
  simp [ht.1 c hc] at this

lemma numberLength_numberText {whole t : Text} {fraction : Option Text} (hw : isDigits whole = true)
    (hf : fraction.all isDigits = true) (ht : EndsNumber t) :
    numberLength (numberText whole fraction ++ t) = (numberText whole fraction).length := by
  simp only [isDigits, Bool.and_eq_true] at hw
  rcases fraction with _ | f
  · have htake : (whole ++ t).takeWhile Char.isDigit = whole :=
      takeWhile_append hw.2 (EndsNumber.not_isDigit ht)
    simp only [numberText, numberLength, htake, List.drop_left]
    split
    · next c rest => exact absurd rfl ht.2
    · rfl
  · simp only [Option.all_some, isDigits, Bool.and_eq_true] at hf
    have htake : (whole ++ '.' :: f ++ t).takeWhile Char.isDigit = whole := by
      rw [List.append_assoc]
      refine takeWhile_append hw.2 ?_
      rintro c ⟨⟩
      decide
    have hfrac : (f ++ t).takeWhile Char.isDigit = f :=
      takeWhile_append hf.2 (EndsNumber.not_isDigit ht)
    have hdrop : (whole ++ '.' :: f ++ t).drop whole.length = '.' :: (f ++ t) := by
      rw [List.append_assoc, List.drop_left]
      rfl
    have hne : f.isEmpty = false := by simpa using hf.1
    simp only [numberText, numberLength, htake, hdrop, hfrac, hne]
    simp
    omega

lemma expr_number (mode : Mode) {whole t : Text} {fraction : Option Text}
    (hw : isDigits whole = true) (hf : fraction.all isDigits = true) (ht : EndsNumber t) :
    expr mode (numberText whole fraction ++ t) =
      ⟨.number, (numberText whole fraction).length, none⟩ := by
  have hlen := numberLength_numberText hw hf ht
  obtain ⟨c, cs, hcs, hc⟩ := head_numberText hw fraction
  have hquote : c ≠ '"' := by
    rintro rfl
    simp at hc
  rw [hcs, List.cons_append] at hlen ⊢
  rw [expr, spelledAt?_exprSymbols_none (.inl (isWordPart_of_isDigit hc))]
  simp [hquote, hc, hlen]

/-- The characters that stand for themselves in a string literal. -/
def isStringPart (c : Char) : Bool := c ≠ '"' && c ≠ '\\' && !isLineBreak c

/-- What can stand between the quotes of a string literal: characters that stand for themselves and
escaped ones. -/
def isStringBody : Text → Bool
  | [] => true
  | c :: cs =>
    if c = '\\' then
      match cs with
      | [] => false
      | d :: ds => !isLineBreak d && isStringBody ds
    else isStringPart c && isStringBody cs

lemma isStringBody_of_all {contents : Text} (h : contents.all isStringPart = true) :
    isStringBody contents = true := by
  induction contents with
  | nil => rfl
  | cons c cs ih =>
    simp only [List.all_cons, Bool.and_eq_true] at h
    have hc : c ≠ '\\' := by
      rintro rfl
      simp [isStringPart] at h
    rw [isStringBody.eq_def]
    simp [hc, h.1, ih h.2]

/-- A string literal as it is written. -/
def stringText (contents : Text) : Text := '"' :: contents ++ ['"']

lemma stringLength_append {contents : Text} (h : isStringBody contents = true) (t : Text) :
    stringLength (contents ++ '"' :: t) = (contents.length + 1, true) := by
  induction contents using isStringBody.induct with
  | case1 =>
    rw [List.nil_append, stringLength.eq_def]
    rfl
  | case2 => simp [isStringBody] at h
  | case3 d ds ih =>
    simp only [isStringBody, if_true, Bool.and_eq_true, Bool.not_eq_true'] at h
    have hds := ih h.2
    rw [List.cons_append, List.cons_append, stringLength.eq_def]
    have hslash : isLineBreak '\\' = false := rfl
    simp [hslash, h.1, hds]
  | case4 c cs hc ih =>
    rw [isStringBody.eq_def] at h
    simp only [hc, if_false, isStringPart, Bool.and_eq_true, Bool.not_eq_true', ne_eq, decide_not]
      at h
    obtain ⟨⟨⟨h1, -⟩, h3⟩, h4⟩ := h
    have hq : ¬ c = '"' := by simpa using h1
    have hcs := ih h4
    rw [List.cons_append, stringLength.eq_def]
    simp [h3, hq, hc, hcs]

lemma expr_string {mode : Mode} {contents : Text} (h : isStringBody contents = true) (t : Text) :
    expr mode (stringText contents ++ t) = ⟨.string, (stringText contents).length, none⟩ := by
  have hlen := stringLength_append h t
  have hcs : stringText contents ++ t = '"' :: (contents ++ '"' :: t) := by simp [stringText]
  rw [hcs, expr, spelledAt?_exprSymbols_none (.inr rfl)]
  simp [string, hlen, stringText]

end Lexeme

namespace Scanner

/-! ### Tokens and the trivia around them -/

/-- The token `w` of kind `k` stands at the front of a text, and behind it the trivia `b`. -/
structure TokenAt (mode : Mode) (k : Kind) (w b r : Text) : Prop where
  next : Lexeme.next mode (w ++ b ++ r) = ⟨k, w.length, none⟩
  trail : Trivia.concat (trailing mode k (b ++ r)) = b

/-- Nothing stands between the scanner and the token `w`. -/
structure Facing (mode : Mode) (k : Kind) (w b r : Text) : Prop extends TokenAt mode k w b r where
  gap : gap mode.skipsBlanks mode.allowsComments (w ++ b ++ r) = []
  insensitive : mode.isIndentSensitive = false

/-- A token of an expression with the blanks behind it. -/
lemma facing_expr {mode : Mode} (hm : mode = .expr ∨ mode = .name ∨ mode = .command) {k : Kind}
    {c : Char} {cs b r : Text} (hc : isBlank c = false ∧ isLineBreak c = false)
    (hlex : Lexeme.expr mode (c :: cs ++ (b ++ r)) = ⟨k, (c :: cs).length, none⟩)
    (hk : k.isStructural = false ∧ k ≠ .newline ∧ k ≠ .eof ∧ k ≠ .hash ∧ k ≠ .commandEnd)
    (hkeep : keepsBlanks k = false ∨ b = []) (hb : b.all isBlank = true) (hr : Text.Unspaced r) :
    Facing mode k (c :: cs) b r where
  next := by
    rw [List.append_assoc]
    exact (Lexeme.next_expr hm hc.2).trans hlex
  trail := by
    have hcomments : mode.allowsComments = false := by rcases hm with rfl | rfl | rfl <;> rfl
    have hblank := blankTrivia_append hb hr
    rw [trailing, if_neg (by simp [hk])]
    simp only [gap, hcomments, hk, decide_false, Bool.or_self, Bool.false_and, Bool.false_eq_true,
      if_false, List.append_nil]
    rcases hkeep with hkeep | rfl
    · simpa [hkeep] using hblank
    · split
      · exact hblank
      · rfl
  gap := by
    have hmode : mode.skipsBlanks = true ∧ mode.allowsComments = false := by
      rcases hm with rfl | rfl | rfl <;> exact ⟨rfl, rfl⟩
    have hfirst : Text.Unspaced (c :: cs ++ b ++ r) := by
      rintro _ ⟨⟩
      exact hc.1
    simp only [DialogueScript.gap, hmode, if_true, blankTrivia_eq_nil hfirst]
    rfl
  insensitive := by rcases hm with rfl | rfl | rfl <;> rfl

end Scanner

end DialogueScript
