import DialogueScript.Proofs.Text.Line
import DialogueScript.Scanner.Lexeme

/-!
Every lexeme takes at least one character and stays within its line, in every mode; it is an error
exactly when it says which one; and it is the same in all texts with the same first line.
-/

namespace DialogueScript

namespace Text

lemma length_le_firstLine_of_isPrefixOf {m t : Text} (h : m.isPrefixOf t = true)
    (hm : ∀ c ∈ m, isLineBreak c = false) : m.length ≤ (firstLine t).length := by
  induction m generalizing t with
  | nil => simp
  | cons c m ih =>
    rcases t with _ | ⟨d, t⟩
    · simp [List.isPrefixOf] at h
    · simp only [List.isPrefixOf, Bool.and_eq_true, beq_iff_eq] at h
      obtain ⟨rfl, h⟩ := h
      have := ih h fun c hc => hm c (by simp [hc])
      rw [firstLine_cons t (hm c (by simp)), List.length_cons, List.length_cons]
      omega

lemma length_takeWhile_le_firstLine {p : Char → Bool} (hp : ∀ c, isLineBreak c = true → p c = false)
    (t : Text) : (t.takeWhile p).length ≤ (firstLine t).length := by
  induction t with
  | nil => simp
  | cons c t ih =>
    cases hc : isLineBreak c
    · rw [firstLine_cons t hc, List.takeWhile_cons]
      split <;> simp [ih]
    · simp [hp c hc]

lemma trimEnd_length_le (t : Text) : (trimEnd t).length ≤ t.length := by
  have := (List.dropWhile_suffix isBlank (l := t.reverse)).length_le
  simpa [trimEnd] using this

lemma not_isWordPart_of_break (c : Char) (h : isLineBreak c = true) : isWordPart c = false := by
  simp only [isLineBreak, Bool.or_eq_true, decide_eq_true_eq] at h
  rcases h with rfl | rfl <;> decide

lemma not_isDigit_of_break (c : Char) (h : isLineBreak c = true) : c.isDigit = false := by
  simp only [isLineBreak, Bool.or_eq_true, decide_eq_true_eq] at h
  rcases h with rfl | rfl <;> decide

lemma not_isBlank_of_break (c : Char) (h : isLineBreak c = true) : isBlank c = false := by
  simp only [isLineBreak, Bool.or_eq_true, decide_eq_true_eq] at h
  rcases h with rfl | rfl <;> decide

lemma word?_length {t w : Text} (h : word? t = some w) :
    0 < w.length ∧ w.length ≤ (firstLine t).length := by
  rcases t with _ | ⟨c, t⟩
  · simp [word?] at h
  · simp only [word?, Option.ite_none_right_eq_some, Option.some.injEq] at h
    obtain ⟨hc, rfl⟩ := h
    have hb : isLineBreak c = false := by
      cases hb : isLineBreak c
      · rfl
      · simp only [isLineBreak, Bool.or_eq_true, decide_eq_true_eq] at hb
        rcases hb with rfl | rfl <;> revert hc <;> decide
    have := length_takeWhile_le_firstLine not_isWordPart_of_break t
    rw [firstLine_cons t hb, List.length_cons, List.length_cons]
    omega

lemma SameLine.word?_eq {E : Text → Text → Prop} {t t' : Text} (h : SameLine E t t') :
    word? t = word? t' := by
  have hstart : ∀ b, isLineBreak b = true → isWordStart b = false := by
    intro b hb
    simp only [isLineBreak, Bool.or_eq_true, decide_eq_true_eq] at hb
    rcases hb with rfl | rfl <;> decide
  cases h with
  | stop r r' hb hb' => simp [word?, hstart _ hb, hstart _ hb']
  | step hc h => simp only [word?, h.takeWhile_eq not_isWordPart_of_break]

end Text

section
variable {E : Text → Text → Prop}

lemma headerKeyword?_eq {t t' : Text} (h : Text.SameLine E t t') :
    headerKeyword? t = headerKeyword? t' := by
  unfold headerKeyword?
  rw [← h.word?_eq]
  rcases hw : Text.word? t with _ | w
  · rfl
  · have hd := h.drop (Text.word?_length hw).2
    simp only [Option.bind_eq_bind, Option.bind_some,
      hd.dropBlanks.head?_eq_some_iff (c := ':') (by decide)]

lemma commandKeywordAt?_eq {t t' : Text} (h : Text.SameLine E t t') :
    commandKeywordAt? t = commandKeywordAt? t' := by
  unfold commandKeywordAt?
  rw [h.dropBlanks.word?_eq]

end

namespace Lexeme

/-- The kinds of tokens that stand in a line. -/
structure Plain (k : Kind) : Prop where
  newline : k ≠ .newline
  eof : k ≠ .eof
  structural : k.isStructural = false
  token : k.isToken = true

instance : DecidablePred Plain := fun _ =>
  decidable_of_iff (_ ∧ _ ∧ _ ∧ _)
    ⟨fun ⟨a, b, c, d⟩ => ⟨a, b, c, d⟩, fun ⟨a, b, c, d⟩ => ⟨a, b, c, d⟩⟩

/-- A lexeme at the start of a text takes a part of the first line. -/
structure Fits (t : Text) (l : Lexeme) : Prop where
  pos : 0 < l.length
  le : l.length ≤ (Text.firstLine t).length
  error : l.kind = .errorToken ↔ l.error.isSome
  plain : Plain l.kind

/-- The kinds that are lexemes when their spelling stands in the text. -/
def Spellable (k : Kind) : Prop :=
  k.chars ≠ [] ∧ Text.OneLine k.chars ∧ k ≠ .errorToken ∧ Plain k

instance : DecidablePred Spellable := fun _ => inferInstanceAs (Decidable (_ ∧ _))

lemma fits_failure {t : Text} (e : LexicalError) {n : Nat} (hn : 0 < n)
    (hle : n ≤ (Text.firstLine t).length) : Fits t (failure e n) :=
  ⟨hn, hle, by simp [failure], show Plain .errorToken by decide⟩

lemma fits_spelled {t : Text} {k : Kind} (hk : Spellable k) (h : k.chars.isPrefixOf t = true) :
    Fits t (spelled k) := by
  obtain ⟨hne, hb, he, hp⟩ := hk
  exact ⟨List.length_pos_iff.2 hne, Text.length_le_firstLine_of_isPrefixOf h hb.not_break,
    by simp [spelled, he], hp⟩

lemma fits_spelledAt? {t : Text} {ks : List Kind} (hks : ∀ k ∈ ks, Spellable k) {l : Lexeme}
    (h : spelledAt? ks t = some l) : Fits t l := by
  obtain ⟨k, hk, rfl⟩ := Option.map_eq_some_iff.1 h
  have hpre := List.find?_some hk
  exact fits_spelled (hks k (List.mem_of_find?_eq_some hk)) hpre

/-- Either one of some spellings stands in the text, or the lexeme is found in another way. -/
lemma fits_getD {t : Text} {ks : List Kind} (hks : ∀ k ∈ ks, Spellable k) {l : Lexeme}
    (h : spelledAt? ks t = none → Fits t l) : Fits t ((spelledAt? ks t).getD l) := by
  rcases hs : spelledAt? ks t with _ | m
  · exact h hs
  · exact fits_spelledAt? hks hs

lemma spelledAt?_eq {E : Text → Text → Prop} {t t' : Text} (h : Text.SameLine E t t')
    {ks : List Kind} (hks : ∀ k ∈ ks, Spellable k) : spelledAt? ks t = spelledAt? ks t' := by
  unfold spelledAt?
  congr 1
  induction ks with
  | nil => rfl
  | cons k ks ih =>
    have hk := hks k (by simp)
    rw [List.find?_cons, List.find?_cons, h.isPrefixOf_eq hk.2.1.not_break,
      ih fun k hk => hks k (by simp [hk])]

lemma not_isPrefixOf_of_spelledAt? {t : Text} {ks : List Kind} (h : spelledAt? ks t = none)
    {k : Kind} (hk : k ∈ ks) : k.chars.isPrefixOf t = false := by
  simp only [spelledAt?, Option.map_eq_none_iff, List.find?_eq_none] at h
  exact Bool.eq_false_iff.2 (h k hk)

/-! ### Headers -/

lemma word_isPrefixOf {t w : Text} (h : Text.word? t = some w) : w.isPrefixOf t = true := by
  rcases t with _ | ⟨c, t⟩
  · simp [Text.word?] at h
  · simp only [Text.word?, Option.ite_none_right_eq_some, Option.some.injEq] at h
    obtain ⟨-, rfl⟩ := h
    simp [List.isPrefixOf, List.takeWhile_prefix]

lemma headerKeyword?_spelled {t : Text} {k : Kind} (h : headerKeyword? t = some k) :
    k ∈ headerKeywords ∧ k.chars.isPrefixOf t = true := by
  simp only [headerKeyword?, Option.bind_eq_bind, Option.bind_eq_some_iff] at h
  obtain ⟨w, hw, k', hk', h⟩ := h
  split at h
  · simp only [Option.some.injEq] at h
    subst h
    have hs := List.find?_some hk'
    simp only [decide_eq_true_eq] at hs
    exact ⟨List.mem_of_find?_eq_some hk', hs ▸ word_isPrefixOf hw⟩
  · simp at h

section
variable {c : Char} {cs : Text} (hc : isLineBreak c = false)
include hc

lemma fits_header : Fits (c :: cs) (header (c :: cs)) := by
  unfold header
  refine fits_getD (by decide) fun _ => ?_
  rcases hk : headerKeyword? (c :: cs) with _ | k
  · rcases hw : Text.word? (c :: cs) with _ | w
    · refine fits_getD (by decide) fun _ => fits_failure _ ?_ (by simp)
      simp [Text.firstLine_cons cs hc]
    · obtain ⟨hpos, hle⟩ := Text.word?_length hw
      exact ⟨hpos, hle, by simp, show Plain .ident by decide⟩
  · obtain ⟨hmem, hpre⟩ := headerKeyword?_spelled hk
    exact fits_spelled ((show ∀ k ∈ headerKeywords, Spellable k by decide) k hmem) hpre

omit hc in
lemma runLength_le (stop : Char → Bool) (t : Text) : runLength stop t ≤ t.length := by
  induction t with
  | nil => simp [runLength]
  | cons c cs ih =>
    rw [runLength]
    split <;> simp [ih]

omit hc in
lemma runLength_le_firstLine {stop : Char → Bool} (hs : ∀ c, isLineBreak c = true → stop c = true)
    (t : Text) : runLength stop t ≤ (Text.firstLine t).length := by
  induction t with
  | nil => simp [runLength]
  | cons c cs ih =>
    rw [runLength]
    cases hc : isLineBreak c
    · split <;> simp [Text.firstLine_cons cs hc, ih]
    · simp [hs c hc]

lemma fits_headerValue : Fits (c :: cs) (headerValue (c :: cs)) := by
  unfold headerValue
  simp only
  split
  · exact fits_header hc
  · next h =>
    have hle := Text.trimEnd_length_le
      ((Text.firstLine (c :: cs)).take (runLength (fun _ => false) (Text.firstLine (c :: cs))))
    have := runLength_le (fun _ => false) (Text.firstLine (c :: cs))
    rw [List.length_take] at hle
    refine ⟨List.length_pos_iff.2 (by simpa using h), ?_, by simp, show Plain .restOfLine by decide⟩
    simp only
    omega

/-! ### Dialogue -/

omit hc in
lemma trimmedLength_le (run : Text) : trimmedLength run ≤ run.length := by
  have := Text.trimEnd_length_le run
  simp only [trimmedLength]
  split <;> omega

omit hc in
lemma trimmedLength_pos {run : Text} (h : run ≠ []) : 0 < trimmedLength run := by
  have := List.length_pos_iff.2 h
  simp only [trimmedLength]
  split <;> omega

omit hc in
lemma visibleRunLength_le (stop : Char → Bool) (markers : List String) (t : Text) :
    visibleRunLength stop markers t ≤ runLength stop t := by
  have := runLength_le stop t
  have := trimmedLength_le (t.take (runLength stop t))
  unfold visibleRunLength
  simp only
  split
  · simp only [List.length_take] at this
    omega
  · omega

omit hc in
lemma visibleRunLength_pos {stop : Char → Bool} (markers : List String) {t : Text}
    (h : 0 < runLength stop t) : 0 < visibleRunLength stop markers t := by
  unfold visibleRunLength
  simp only
  split
  · have := runLength_le stop t
    exact trimmedLength_pos (List.ne_nil_of_length_pos (by rw [List.length_take]; omega))
  · exact h

omit hc in
lemma isTextStop_of_break (c : Char) (h : isLineBreak c = true) : isTextStop c = true := by
  simp [isTextStop, h]

omit hc in
lemma isHashtagStop_of_break (c : Char) (h : isLineBreak c = true) : isHashtagStop c = true := by
  simp [isHashtagStop, h]

lemma one_le_firstLine : 1 ≤ (Text.firstLine (c :: cs)).length := by
  simp [Text.firstLine_cons cs hc]

lemma fits_textEscape : Fits (c :: cs) (textEscape (c :: cs)) := by
  unfold textEscape
  split
  · next d ds heq =>
    obtain ⟨rfl, rfl⟩ := List.cons.inj heq
    split
    · exact fits_failure _ (by omega) (one_le_firstLine hc)
    · next hd =>
      refine ⟨by simp, ?_, by simp, show Plain .textEscape by decide⟩
      simp [Text.firstLine_cons _ hc, Text.firstLine_cons ds (by simpa using hd)]
  · exact fits_failure _ (by omega) (one_le_firstLine hc)

lemma fits_textRun : Fits (c :: cs) (textRun (c :: cs)) := by
  unfold textRun
  split
  · exact fits_failure _ (by omega) (one_le_firstLine hc)
  · next hn =>
    have h1 := visibleRunLength_le isTextStop ["//", "#", "<<"] (c :: cs)
    have h2 := runLength_le_firstLine isTextStop_of_break (c :: cs)
    exact ⟨Nat.pos_of_ne_zero hn, h1.trans h2, by simp, show Plain .text by decide⟩

lemma fits_text : Fits (c :: cs) (text (c :: cs)) := by
  unfold text
  refine fits_getD (by decide) fun _ => ?_
  split
  · exact fits_failure _ (by omega) (one_le_firstLine hc)
  · exact fits_textEscape hc
  · exact ⟨by simp, one_le_firstLine hc, by simp, show Plain .text by decide⟩
  · exact ⟨by simp, one_le_firstLine hc, by simp, show Plain .text by decide⟩
  · exact fits_textRun hc

lemma fits_statement : Fits (c :: cs) (statement (c :: cs)) := by
  unfold statement
  refine fits_getD (by decide) fun _ => ?_
  split
  · next hk => exact fits_spelled (by decide) (headerKeyword?_spelled hk).2
  · exact fits_getD (by decide) fun _ => fits_text hc

lemma fits_hashtag : Fits (c :: cs) (hashtag (c :: cs)) := by
  unfold hashtag
  split
  · exact fits_text hc
  · next h =>
    simp only [List.head?_cons, Option.any_some, Bool.or_eq_true, not_or, Bool.not_eq_true] at h
    obtain ⟨⟨-, hstop⟩, hcomment⟩ := h
    have hstop' : isHashtagStop c = false := by
      simp only [isTextStop, Bool.or_eq_false_iff] at hstop
      simp [isHashtagStop, hstop]
    have hpos : 0 < runLength isHashtagStop (c :: cs) := by simp [runLength, hstop', hcomment]
    have h1 := visibleRunLength_le isHashtagStop ["#", "<", ">", "\x7b", "\x7d", "//"] (c :: cs)
    have h2 := runLength_le_firstLine isHashtagStop_of_break (c :: cs)
    exact ⟨visibleRunLength_pos _ hpos, h1.trans h2, by simp, show Plain .hashtagText by decide⟩

/-! ### Commands -/

omit hc in
lemma commandRunLength_le (t : Text) : commandRunLength t ≤ (Text.firstLine t).length := by
  induction t with
  | nil => simp [commandRunLength]
  | cons c cs ih =>
    rw [commandRunLength]
    cases hc : isLineBreak c
    · split <;> simp [Text.firstLine_cons cs hc, ih]
    · simp

lemma fits_commandText : Fits (c :: cs) (commandText (c :: cs)) := by
  unfold commandText
  refine fits_getD (by decide) fun hs => ?_
  have hend : Text.startsWith (c :: cs) ">>" = false :=
    not_isPrefixOf_of_spelledAt? hs (k := .commandEnd) (by simp)
  have hbrace : c ≠ '\x7b' := by
    rintro rfl
    have := not_isPrefixOf_of_spelledAt? hs (k := .leftBrace) (by simp)
    rw [show Kind.chars .leftBrace = ['\x7b'] from rfl] at this
    simp [List.isPrefixOf] at this
  have hpos : 0 < commandRunLength (c :: cs) := by simp [commandRunLength, hc, hend, hbrace]
  have hle := commandRunLength_le (c :: cs)
  have hlen := Text.firstLine_length_le (c :: cs)
  simp only
  split
  · have h1 := trimmedLength_le ((c :: cs).take (commandRunLength (c :: cs)))
    rw [List.length_take] at h1
    have h2 : 0 < trimmedLength ((c :: cs).take (commandRunLength (c :: cs))) :=
      trimmedLength_pos (List.ne_nil_of_length_pos (by rw [List.length_take]; omega))
    exact ⟨h2, by simp only; omega, by simp, show Plain .commandText by decide⟩
  · exact ⟨hpos, hle, by simp, show Plain .commandText by decide⟩

/-! ### Expressions -/

omit hc in
lemma numberLength_le (t : Text) : numberLength t ≤ (Text.firstLine t).length := by
  have hw := Text.length_takeWhile_le_firstLine Text.not_isDigit_of_break t
  unfold numberLength
  simp only
  split
  · next rest heq =>
    have hf := Text.firstLine_drop hw
    rw [heq, Text.firstLine_cons _ (by decide)] at hf
    have hr := Text.length_takeWhile_le_firstLine Text.not_isDigit_of_break rest
    have := congrArg List.length hf
    simp only [List.length_cons, List.length_drop] at this
    split <;> omega
  · exact hw

omit hc in
lemma numberLength_pos {c : Char} (cs : Text) (h : c.isDigit = true) :
    0 < numberLength (c :: cs) := by
  unfold numberLength
  simp only
  split
  · split
    · simp [h]
    · omega
  · simp [h]

omit hc in
lemma stringLength_le (t : Text) : (stringLength t).1 ≤ (Text.firstLine t).length := by
  have hback : isLineBreak '\\' = false := by decide
  have hquote : isLineBreak '"' = false := by decide
  fun_induction stringLength t with
  | case1 => simp
  | case2 c cs hc => simp
  | case3 cs _ => simp [Text.firstLine_cons cs hquote]
  | case4 d ds hd _ _ => simp [Text.firstLine_cons _ hback]
  | case5 d ds hd n closed heq _ _ ih =>
    rw [heq] at ih
    rw [Bool.not_eq_true] at hd
    simp only [Text.firstLine_cons _ hback, Text.firstLine_cons ds hd, List.length_cons]
    omega
  | case6 => simp [Text.firstLine_cons _ hback]
  | case7 c cs hc _ _ n closed heq ih =>
    rw [heq] at ih
    rw [Bool.not_eq_true] at hc
    simp only [Text.firstLine_cons cs hc, List.length_cons]
    omega

lemma fits_string : Fits (c :: cs) (string cs) := by
  have h := stringLength_le cs
  unfold string
  split
  · next n heq =>
    rw [heq] at h
    exact ⟨by simp, by simp [Text.firstLine_cons cs hc, h], by simp, show Plain .string by decide⟩
  · next n heq =>
    rw [heq] at h
    exact fits_failure _ (by omega) (by simp [Text.firstLine_cons cs hc, h])

omit hc in
lemma keywordIn?_mem {ks : List Kind} {w : Text} {k : Kind} (h : keywordIn? ks w = some k) :
    k ∈ ks := List.mem_of_find?_eq_some h

lemma fits_expr (mode : Mode) : Fits (c :: cs) (expr mode (c :: cs)) := by
  unfold expr
  refine fits_getD (by decide) fun _ => ?_
  simp only
  split
  · exact fits_string hc
  · split
    · next h =>
      exact ⟨numberLength_pos cs h, numberLength_le _, by simp, show Plain .number by decide⟩
    · split
      · next w hw =>
        obtain ⟨hpos, hle⟩ := Text.word?_length hw
        rcases hk : keywordIn? mode.keywords w with _ | k
        · exact ⟨hpos, hle, by simp, show Plain .ident by decide⟩
        · have hall : ∀ m : Mode, ∀ k ∈ m.keywords, Spellable k := by intro m; cases m <;> decide
          obtain ⟨-, -, he, hp⟩ := hall mode k (keywordIn?_mem hk)
          exact ⟨hpos, hle, by simp [he], hp⟩
      · exact fits_failure _ (by omega) (one_le_firstLine hc)

end

/-! ### All modes -/

lemma next_nil (mode : Mode) : next mode [] = ⟨.eof, 0, none⟩ := rfl

lemma next_of_lineBreak? (mode : Mode) {t : Text} {n : Nat} (h : Text.lineBreak? t = some n) :
    next mode t = ⟨.newline, n, none⟩ := by
  have hne : t.isEmpty = false := by
    rcases t with _ | ⟨c, cs⟩
    · simp [Text.lineBreak?] at h
    · rfl
  simp [next, hne, h]

/-- **A lexeme that is no line break is a part of its line.** -/
lemma fits_next (mode : Mode) {c : Char} (cs : Text) (hc : isLineBreak c = false) :
    Fits (c :: cs) (next mode (c :: cs)) := by
  have hl := Text.lineBreak?_cons cs hc
  cases mode <;> simp only [next, hl, List.isEmpty_cons, Bool.false_eq_true, if_false]
  · exact fits_header hc
  · exact fits_headerValue hc
  · exact fits_expr hc _
  · exact fits_statement hc
  · exact fits_statement hc
  · exact fits_text hc
  · exact fits_hashtag hc
  · exact fits_expr hc _
  · exact fits_commandText hc
  · exact fits_expr hc _
  · exact fits_expr hc _

/-! ### Texts with the same first line -/

section
variable {E : Text → Text → Prop} {t t' : Text} (h : Text.SameLine E t t')
include h

lemma header_eq : header t = header t' := by
  unfold header
  rw [spelledAt?_eq h (by decide), headerKeyword?_eq h, h.word?_eq, spelledAt?_eq h (by decide),
    h.firstLine_eq]

lemma headerValue_eq : headerValue t = headerValue t' := by
  unfold headerValue
  rw [header_eq h, h.firstLine_eq]

lemma runLength_eq {stop : Char → Bool} (hs : ∀ c, isLineBreak c = true → stop c = true) :
    runLength stop t = runLength stop t' := by
  induction h with
  | stop r r' hb hb' => simp [runLength, hs _ hb, hs _ hb']
  | step hc h ih => simp only [runLength, ih, (Text.SameLine.step hc h).startsComment_eq]

lemma visibleRunLength_eq {stop : Char → Bool} (hs : ∀ c, isLineBreak c = true → stop c = true)
    {markers : List String} (hm : ∀ m ∈ markers, Text.OneLine m.toList) :
    visibleRunLength stop markers t = visibleRunLength stop markers t' := by
  have hle := runLength_le_firstLine hs t
  have hd := h.drop hle
  have hany : (markers.any fun m => Text.startsWith (t.drop (runLength stop t)) m) =
      markers.any fun m => Text.startsWith (t'.drop (runLength stop t)) m := by
    induction markers with
    | nil => rfl
    | cons m ms ih =>
      rw [List.any_cons, List.any_cons, hd.startsWith_eq (hm m (by simp)),
        ih fun m h => hm m (by simp [h])]
  unfold visibleRunLength
  simp only [← runLength_eq h hs, hd.atLineEnd_eq, hany, h.take_eq hle]

lemma textEscape_eq (ht : t.head? = some '\\') : textEscape t = textEscape t' := by
  cases h with
  | stop r r' hb =>
    obtain rfl := Option.some.inj ht
    simp [isLineBreak] at hb
  | step hc h =>
    cases h with
    | stop r r' hb hb' => simp [textEscape, hb, hb']
    | step => rfl

lemma textRun_eq : textRun t = textRun t' := by
  unfold textRun
  rw [visibleRunLength_eq h isTextStop_of_break (by decide)]

lemma text_eq : text t = text t' := by
  unfold text
  rw [spelledAt?_eq h (by decide), textRun_eq h]
  congr 1
  cases h with
  | stop r r' hb hb' =>
    simp only [isLineBreak, Bool.or_eq_true, decide_eq_true_eq] at hb hb'
    rcases hb with rfl | rfl <;> rcases hb' with rfl | rfl <;> rfl
  | step hc h =>
    simp only [List.head?_cons]
    split
    · rfl
    · next hq => rw [textEscape_eq (.step hc h) hq]
    all_goals rfl

lemma statement_eq : statement t = statement t' := by
  unfold statement
  rw [spelledAt?_eq h (by decide), headerKeyword?_eq h, spelledAt?_eq h (by decide), text_eq h]

lemma hashtag_eq : hashtag t = hashtag t' := by
  have hhead : t.head?.any (fun c => isWhiteSpace c || isTextStop c) =
      t'.head?.any (fun c => isWhiteSpace c || isTextStop c) := by
    cases h with
    | stop r r' hb hb' => simp [isTextStop_of_break _ hb, isTextStop_of_break _ hb']
    | step => rfl
  unfold hashtag
  rw [hhead, h.startsComment_eq, text_eq h,
    visibleRunLength_eq h isHashtagStop_of_break (by decide)]

lemma commandRunLength_eq : commandRunLength t = commandRunLength t' := by
  induction h with
  | stop r r' hb hb' => simp [commandRunLength, hb, hb']
  | step hc h ih =>
    simp only [commandRunLength, ih,
      (Text.SameLine.step hc h).startsWith_eq (m := ">>") (by decide)]

lemma commandText_eq : commandText t = commandText t' := by
  have hle := commandRunLength_le t
  have hd := h.drop hle
  unfold commandText
  simp only [spelledAt?_eq h (show ∀ k ∈ [Kind.commandEnd, .leftBrace], Spellable k by decide),
    ← commandRunLength_eq h, hd.atLineEnd_eq, hd.startsWith_eq (m := ">>") (by decide),
    h.take_eq hle]

lemma numberLength_eq : numberLength t = numberLength t' := by
  have hw := Text.length_takeWhile_le_firstLine Text.not_isDigit_of_break t
  have hd := h.drop hw
  unfold numberLength
  simp only [← h.takeWhile_eq Text.not_isDigit_of_break]
  generalize t.drop (t.takeWhile Char.isDigit).length = u at hd
  generalize t'.drop (t.takeWhile Char.isDigit).length = u' at hd
  cases hd with
  | stop r r' hb hb' =>
    have hdot : ∀ b, isLineBreak b = true → b ≠ '.' := by rintro b hb rfl; simp [isLineBreak] at hb
    split
    · next e => exact absurd (List.cons.inj e).1 (hdot _ hb)
    · split
      · next e => exact absurd (List.cons.inj e).1 (hdot _ hb')
      · rfl
  | @step c u u' hc hu =>
    by_cases hdot : c = '.'
    · subst hdot
      simp only [hu.takeWhile_eq Text.not_isDigit_of_break]
    · split
      · next e => exact absurd (List.cons.inj e).1 hdot
      · split
        · next e => exact absurd (List.cons.inj e).1 hdot
        · rfl

lemma stringLength_eq : stringLength t = stringLength t' := by
  -- an escape takes two characters at once
  induction hn : t.length using Nat.strong_induction_on generalizing t t' with
  | _ n ih =>
  cases h with
  | stop r r' hb hb' =>
    rw [stringLength.eq_def, stringLength.eq_def]
    simp [hb, hb']
  | @step c t t' hc h =>
    have hlt : t.length < n := by simp only [List.length_cons] at hn; omega
    by_cases hq : c = '\\'
    · subst hq
      cases h with
      | stop r r' hb hb' => simp [stringLength, hb, hb', hc]
      | @step d t t' hd h =>
        have := ih t.length (by simp only [List.length_cons] at hlt; omega) h rfl
        simp [stringLength, hd, this]
    · rw [stringLength.eq_def, stringLength.eq_def]
      simp [hc, hq, ih t.length hlt h rfl]

lemma expr_eq (mode : Mode) : expr mode t = expr mode t' := by
  unfold expr
  rw [spelledAt?_eq h (by decide)]
  congr 1
  cases h with
  | @stop b b' r r' hb hb' hr =>
    have hw := (Text.SameLine.stop r r' hb hb' hr).word?_eq
    have hq : ∀ b, isLineBreak b = true → b ≠ '"' := by rintro b hb rfl; simp [isLineBreak] at hb
    simp only [hw, hq _ hb, hq _ hb', Text.not_isDigit_of_break _ hb,
      Text.not_isDigit_of_break _ hb', Bool.false_eq_true, if_false]
  | step hc h =>
    have hw := (Text.SameLine.step hc h).word?_eq
    have hn := numberLength_eq (Text.SameLine.step hc h)
    simp only [hw, hn, string, stringLength_eq h]

/-- **A lexeme depends on its line only.** -/
lemma next_eq_of_none (mode : Mode) (hn : Text.lineBreak? t = none) :
    next mode t = next mode t' := by
  have h1 : t.isEmpty = false := by simpa using h.ne_nil.1
  have h2 : t'.isEmpty = false := by simpa using h.ne_nil.2
  have hn' : Text.lineBreak? t' = none := by
    rw [← Option.not_isSome_iff_eq_none, ← h.isSome_lineBreak?, hn]
    simp
  cases mode <;>
    simp only [next, h1, h2, hn, hn', header_eq h, headerValue_eq h, statement_eq h, text_eq h,
      hashtag_eq h, commandText_eq h, expr_eq h]

end

lemma next_eq {t t' : Text} (h : Text.SameLine Text.SameBreak t t') (mode : Mode) :
    next mode t = next mode t' := by
  rcases hn : Text.lineBreak? t with _ | n
  · exact next_eq_of_none h mode hn
  · rw [next_of_lineBreak? mode hn, next_of_lineBreak? mode (h.lineBreak?_eq ▸ hn)]

end Lexeme

end DialogueScript
