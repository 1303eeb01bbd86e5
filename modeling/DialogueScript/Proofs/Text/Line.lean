import DialogueScript.Scanner.Word
import Mathlib.Data.List.TakeWhile
import Mathlib.Tactic.Common

/-!
Lines of a text. Everything that is read at one place of a text lies within a line: two texts that
agree on their first line and on the line break at its end are read alike, whatever follows. The
break may need a look at one character more, which tells `\r\n` from `\r`.
-/

namespace DialogueScript

namespace Text

/-- A text that does not go on with a blank. -/
def Unspaced (t : Text) : Prop := ∀ c, t.head? = some c → isBlank c = false

lemma takeWhile_append {p : Char → Bool} {a t : Text} (ha : a.all p = true)
    (ht : ∀ c, t.head? = some c → p c = false) : (a ++ t).takeWhile p = a := by
  induction a with
  | nil =>
    rcases t with _ | ⟨c, cs⟩
    · rfl
    · simp [ht c rfl]
  | cons c a ih =>
    simp only [List.all_cons, Bool.and_eq_true] at ha
    rw [List.cons_append, List.takeWhile_cons_of_pos ha.1, ih ha.2]

lemma unspaced_iff {t : Text} : Unspaced t ↔ t.takeWhile isBlank = [] := by
  rcases t with _ | ⟨c, cs⟩ <;> simp [Unspaced]

lemma unspaced_dropWhile (t : Text) : Unspaced (t.dropWhile isBlank) := by
  intro c hc
  simpa [hc] using List.head?_dropWhile_not isBlank t

@[simp] lemma firstLine_nil : firstLine [] = [] := rfl

lemma firstLine_cons_of_break {c : Char} (cs : Text) (h : isLineBreak c = true) :
    firstLine (c :: cs) = [] := by
  simp [firstLine, h]

lemma firstLine_cons {c : Char} (cs : Text) (h : isLineBreak c = false) :
    firstLine (c :: cs) = c :: firstLine cs := by
  simp [firstLine, h]

lemma firstLine_length_le (t : Text) : (firstLine t).length ≤ t.length :=
  (List.takeWhile_prefix _).length_le

lemma firstLine_append_drop (t : Text) : firstLine t ++ t.drop (firstLine t).length = t :=
  List.prefix_iff_eq_append.1 (List.takeWhile_prefix _)

lemma isLineBreak_of_mem_firstLine {t : Text} {c : Char} (h : c ∈ firstLine t) :
    isLineBreak c = false := by
  have := List.mem_takeWhile_imp h
  simpa using this

lemma lineBreak?_cons {c : Char} (cs : Text) (h : isLineBreak c = false) :
    lineBreak? (c :: cs) = none := by
  simp only [isLineBreak, Bool.or_eq_false_iff, decide_eq_false_iff_not] at h
  unfold lineBreak?
  split <;> simp_all

lemma lineBreak?_cons_of_break {c : Char} (cs : Text) (h : isLineBreak c = true) :
    ∃ n, lineBreak? (c :: cs) = some n ∧ 0 < n ∧ n ≤ (c :: cs).length := by
  simp only [isLineBreak, Bool.or_eq_true, decide_eq_true_eq] at h
  rcases h with rfl | rfl
  · exact ⟨1, rfl, by omega, by simp⟩
  · rcases cs with _ | ⟨d, ds⟩
    · exact ⟨1, rfl, by omega, by simp⟩
    · by_cases hd : d = '\n'
      · subst hd
        exact ⟨2, rfl, by omega, by simp⟩
      · refine ⟨1, ?_, by omega, by simp⟩
        unfold lineBreak?
        split <;> simp_all

lemma lineBreak?_le_two {t : Text} {n : Nat} (h : lineBreak? t = some n) : n ≤ 2 := by
  unfold lineBreak? at h
  split at h <;> simp_all <;> omega

lemma lineBreak?_le {t : Text} {n : Nat} (h : lineBreak? t = some n) : n ≤ t.length := by
  rcases t with _ | ⟨c, cs⟩
  · simp [lineBreak?] at h
  · cases hc : isLineBreak c
    · simp [lineBreak?_cons cs hc] at h
    · obtain ⟨m, hm, -, hle⟩ := lineBreak?_cons_of_break cs hc
      rw [hm, Option.some.injEq] at h
      omega

lemma lineBreak?_eq_none {c : Char} {cs : Text} (h : lineBreak? (c :: cs) = none) :
    isLineBreak c = false := by
  cases hc : isLineBreak c
  · rfl
  · obtain ⟨n, hn, -⟩ := lineBreak?_cons_of_break cs hc
    simp [hn] at h

/-- Only a `\n` behind the character that breaks a line can belong to the break. -/
lemma lineBreak?_eq_one {c : Char} {cs : Text} (h : isLineBreak c = true)
    (hcs : cs.head? ≠ some '\n') :
    lineBreak? (c :: cs) = some 1 := by
  simp only [isLineBreak, Bool.or_eq_true, decide_eq_true_eq] at h
  unfold lineBreak?
  split <;> simp_all

lemma eq_of_lineBreak?_two {t : Text} (h : lineBreak? t = some 2) : ∃ r, t = '\r' :: '\n' :: r := by
  unfold lineBreak? at h
  split at h
  · exact ⟨_, rfl⟩
  all_goals simp at h

/-! ### What a line ends with -/

/-- The number of characters from the first one on that breaks a line. -/
def lineTail (t : Text) : Nat := (t.dropWhile (!isLineBreak ·)).length

@[simp] lemma lineTail_nil : lineTail [] = 0 := rfl

lemma lineTail_cons {c : Char} (cs : Text) (h : isLineBreak c = false) :
    lineTail (c :: cs) = lineTail cs := by
  simp [lineTail, h]

lemma lineTail_cons_of_break {c : Char} (cs : Text) (h : isLineBreak c = true) :
    lineTail (c :: cs) = cs.length + 1 := by
  simp [lineTail, h]

lemma lineTail_le (t : Text) : lineTail t ≤ t.length :=
  (List.dropWhile_suffix _).length_le

/-- Taking characters off the first line changes nothing of what it ends with. -/
lemma lineTail_drop {t : Text} {n : Nat} (h : n ≤ (firstLine t).length) :
    lineTail (t.drop n) = lineTail t := by
  induction t generalizing n with
  | nil => simp
  | cons c cs ih =>
    cases hc : isLineBreak c
    · rcases n with _ | n
      · rfl
      · rw [firstLine_cons cs hc, List.length_cons] at h
        rw [List.drop_succ_cons, ih (by omega), lineTail_cons cs hc]
    · rw [firstLine_cons_of_break cs hc, List.length_nil] at h
      obtain rfl : n = 0 := by omega
      rfl

lemma firstLine_drop {t : Text} {n : Nat} (h : n ≤ (firstLine t).length) :
    firstLine (t.drop n) = (firstLine t).drop n := by
  induction t generalizing n with
  | nil => simp
  | cons c cs ih =>
    rcases n with _ | n
    · rfl
    · cases hc : isLineBreak c
      · rw [firstLine_cons cs hc, List.length_cons] at h
        rw [List.drop_succ_cons, ih (by omega), firstLine_cons cs hc, List.drop_succ_cons]
      · rw [firstLine_cons_of_break cs hc, List.length_nil] at h
        omega

lemma lineBreak?_drop_firstLine (t : Text) (h : t.drop (firstLine t).length ≠ []) :
    (lineBreak? (t.drop (firstLine t).length)).isSome = true := by
  induction t with
  | nil => simp at h
  | cons c cs ih =>
    cases hc : isLineBreak c
    · rw [firstLine_cons cs hc, List.length_cons, List.drop_succ_cons] at h ⊢
      exact ih h
    · rw [firstLine_cons_of_break cs hc] at h ⊢
      obtain ⟨n, hn, -⟩ := lineBreak?_cons_of_break cs hc
      simp [hn]

lemma atLineEnd_drop_firstLine (t : Text) : atLineEnd (t.drop (firstLine t).length) = true := by
  by_cases h : t.drop (firstLine t).length = []
  · rw [h]
    rfl
  · simp [atLineEnd, lineBreak?_drop_firstLine t h]

lemma startsWith_iff {t : Text} {m : String} : startsWith t m = true ↔ m.toList <+: t :=
  List.isPrefixOf_iff_prefix

lemma startsWith_append {t : Text} {m : String} (h : startsWith t m = true) (u : Text) :
    startsWith (t ++ u) m = true :=
  startsWith_iff.2 ((startsWith_iff.1 h).trans (List.prefix_append t u))

lemma startsComment_iff {t : Text} : startsComment t = true ↔ ['/', '/'] <+: t := startsWith_iff

lemma lineTail_of_lineBreak? {t : Text} {n : Nat} (h : lineBreak? t = some n) :
    lineTail t = (t.drop n).length + n := by
  have hle := lineBreak?_le h
  rcases t with _ | ⟨c, cs⟩
  · simp [lineBreak?] at h
  · cases hc : isLineBreak c
    · simp [lineBreak?_cons cs hc] at h
    · rw [lineTail_cons_of_break cs hc, List.length_drop, List.length_cons]
      rw [List.length_cons] at hle
      omega

/-- No line break stands in a text. -/
def OneLine (m : Text) : Prop := m.all (!isLineBreak ·) = true

instance : DecidablePred OneLine := fun m => inferInstanceAs (Decidable (m.all _ = true))

lemma OneLine.not_break {m : Text} (h : OneLine m) : ∀ c ∈ m, isLineBreak c = false := by
  simpa [OneLine] using h

/-! ### Texts with the same first line -/

/-- Two texts have the same first line, a break ends it in both, and from there on they are
related. -/
inductive SameLine (E : Text → Text → Prop) : Text → Text → Prop where
  | stop {b b' : Char} (r r' : Text) (hb : isLineBreak b = true) (hb' : isLineBreak b' = true)
      (hr : E (b :: r) (b' :: r')) : SameLine E (b :: r) (b' :: r')
  | step {c : Char} {t t' : Text} (hc : isLineBreak c = false) (h : SameLine E t t') :
      SameLine E (c :: t) (c :: t')

/-- Two texts start with the same line break. -/
structure SameBreak (t t' : Text) : Prop where
  head : t.head? = t'.head?
  lineBreak : lineBreak? t = lineBreak? t'

/-- Two ends of a text lie within its last `n` characters. The first of these may break a line, so
neither end may go on with that break. -/
def Hides (v v' : Text) (n : Nat) : Prop :=
  v.length + 1 < n ∨ (v.length < n ∧ v.head? ≠ some '\n' ∧ v'.head? ≠ some '\n')

lemma Hides.mono {v v' : Text} {n m : Nat} (h : Hides v v' n) (hle : n ≤ m) : Hides v v' m :=
  h.imp (fun h => lt_of_lt_of_le h hle) fun h => ⟨lt_of_lt_of_le h.1 hle, h.2⟩

lemma Hides.lt {v v' : Text} {n : Nat} (h : Hides v v' n) : v.length < n := by
  rcases h with h | ⟨h, -⟩ <;> omega

namespace SameLine

lemma of_hides (x : Text) {v v' : Text} (h : Hides v v' (lineTail (x ++ v))) :
    SameLine SameBreak (x ++ v) (x ++ v') := by
  induction x with
  | nil =>
    have := lineTail_le v
    have := h.lt
    rw [List.nil_append] at this
    omega
  | cons c x ih =>
    rw [List.cons_append] at h ⊢
    cases hc : isLineBreak c
    · rw [lineTail_cons _ hc] at h
      exact .step hc (ih h)
    · rw [lineTail_cons_of_break _ hc] at h
      refine .stop _ _ hc hc ⟨rfl, ?_⟩
      rcases x with _ | ⟨d, x⟩
      · rcases h with h | ⟨-, h1, h2⟩
        · simp at h
        · exact (lineBreak?_eq_one hc h1).trans (lineBreak?_eq_one hc h2).symm
      · by_cases hd : d = '\n'
        · subst hd
          simp only [isLineBreak, Bool.or_eq_true, decide_eq_true_eq] at hc
          rcases hc with rfl | rfl <;> rfl
        · rw [lineBreak?_eq_one hc (by simpa using hd), lineBreak?_eq_one hc (by simpa using hd)]

variable {E : Text → Text → Prop} {t t' : Text}

lemma ne_nil (h : SameLine E t t') : t ≠ [] ∧ t' ≠ [] := by
  cases h <;> simp

lemma firstLine_eq (h : SameLine E t t') : firstLine t = firstLine t' := by
  induction h with
  | stop r r' hb hb' => rw [firstLine_cons_of_break _ hb, firstLine_cons_of_break _ hb']
  | step hc _ ih => rw [firstLine_cons _ hc, firstLine_cons _ hc, ih]

lemma isSome_lineBreak? (h : SameLine E t t') : (lineBreak? t).isSome = (lineBreak? t').isSome := by
  cases h with
  | stop r r' hb hb' =>
    obtain ⟨n, hn, -⟩ := lineBreak?_cons_of_break r hb
    obtain ⟨n', hn', -⟩ := lineBreak?_cons_of_break r' hb'
    rw [hn, hn']
    rfl
  | step hc _ => rw [lineBreak?_cons _ hc, lineBreak?_cons _ hc]

/-- At the end of the line. -/
lemma of_lineBreak? (h : SameLine E t t') {n : Nat} (hn : lineBreak? t = some n) : E t t' := by
  cases h with
  | stop r r' hb hb' hr => exact hr
  | step hc _ => simp [lineBreak?_cons _ hc] at hn

lemma takeWhile_eq (h : SameLine E t t') {p : Char → Bool}
    (hp : ∀ c, isLineBreak c = true → p c = false) : t.takeWhile p = t'.takeWhile p := by
  induction h with
  | stop r r' hb hb' => simp [hp _ hb, hp _ hb']
  | step hc _ ih => simp [List.takeWhile_cons, ih]

lemma dropWhile (h : SameLine E t t') {p : Char → Bool}
    (hp : ∀ c, isLineBreak c = true → p c = false) :
    SameLine E (t.dropWhile p) (t'.dropWhile p) := by
  induction h with
  | stop r r' hb hb' hr =>
    rw [List.dropWhile_cons_of_neg (by simp [hp _ hb]),
      List.dropWhile_cons_of_neg (by simp [hp _ hb'])]
    exact .stop r r' hb hb' hr
  | @step c t t' hc h ih =>
    by_cases hpc : p c = true
    · rwa [List.dropWhile_cons_of_pos hpc, List.dropWhile_cons_of_pos hpc]
    · rw [List.dropWhile_cons_of_neg hpc, List.dropWhile_cons_of_neg hpc]
      exact .step hc h

lemma drop (h : SameLine E t t') {n : Nat} (hn : n ≤ (firstLine t).length) :
    SameLine E (t.drop n) (t'.drop n) := by
  induction h generalizing n with
  | stop r r' hb hb' hr =>
    rw [firstLine_cons_of_break _ hb, List.length_nil] at hn
    obtain rfl : n = 0 := by omega
    exact .stop r r' hb hb' hr
  | @step c t t' hc h ih =>
    rcases n with _ | n
    · exact .step hc h
    · rw [firstLine_cons _ hc, List.length_cons] at hn
      exact ih (by omega)

lemma take_eq (h : SameLine E t t') {n : Nat} (hn : n ≤ (firstLine t).length) :
    t.take n = t'.take n := by
  induction h generalizing n with
  | stop r r' hb =>
    rw [firstLine_cons_of_break _ hb, List.length_nil] at hn
    obtain rfl : n = 0 := by omega
    rfl
  | @step c t t' hc h ih =>
    rcases n with _ | n
    · rfl
    · rw [firstLine_cons _ hc, List.length_cons] at hn
      rw [List.take_succ_cons, List.take_succ_cons, ih (by omega)]

lemma head?_eq_some_iff (h : SameLine E t t') {c : Char} (hc : isLineBreak c = false) :
    t.head? = some c ↔ t'.head? = some c := by
  cases h with
  | stop r r' hb hb' =>
    have : ∀ {b : Char} (r : Text), isLineBreak b = true → ¬ (b :: r).head? = some c := by
      rintro b r hb ⟨⟩
      simp [hb] at hc
    exact iff_of_false (this r hb) (this r' hb')
  | step => rfl

lemma isPrefixOf_eq (h : SameLine E t t') {m : Text} (hm : ∀ c ∈ m, isLineBreak c = false) :
    m.isPrefixOf t = m.isPrefixOf t' := by
  induction h generalizing m with
  | @stop b b' r r' hb hb' =>
    rcases m with _ | ⟨c, m⟩
    · rfl
    · have hne : ∀ {b : Char}, isLineBreak b = true → (c == b) = false := by
        intro b hb
        rw [beq_eq_false_iff_ne]
        rintro rfl
        simp [hb] at hm
      simp [List.isPrefixOf, hne hb, hne hb']
  | step hc _ ih =>
    rcases m with _ | ⟨d, m⟩
    · rfl
    · simp only [List.isPrefixOf]
      rw [ih fun c h => hm c (by simp [h])]

lemma startsWith_eq (h : SameLine E t t') {m : String} (hm : OneLine m.toList) :
    startsWith t m = startsWith t' m := h.isPrefixOf_eq hm.not_break

lemma startsComment_eq (h : SameLine E t t') : startsComment t = startsComment t' :=
  h.startsWith_eq (by decide)

lemma atLineEnd_eq (h : SameLine E t t') : atLineEnd t = atLineEnd t' := by
  unfold atLineEnd
  rw [h.isSome_lineBreak?]
  cases h <;> rfl

lemma dropBlanks (h : SameLine E t t') : SameLine E (dropBlanks t) (Text.dropBlanks t') :=
  h.dropWhile (by intro c hc; simp only [isLineBreak, Bool.or_eq_true, decide_eq_true_eq] at hc
                  rcases hc with rfl | rfl <;> decide)

/-! #### The same break -/

lemma lineBreak?_eq (h : SameLine SameBreak t t') : lineBreak? t = lineBreak? t' := by
  cases h with
  | stop r r' hb hb' hr => exact hr.lineBreak
  | step hc _ => rw [lineBreak?_cons _ hc, lineBreak?_cons _ hc]

/-- The line break itself is the same. -/
lemma take_lineBreak? (h : SameLine SameBreak t t') {n : Nat} (hn : lineBreak? t = some n) :
    t.take n = t'.take n := by
  have hn' : lineBreak? t' = some n := h.lineBreak?_eq ▸ hn
  obtain rfl | rfl | rfl : n = 0 ∨ n = 1 ∨ n = 2 := by have := lineBreak?_le_two hn; omega
  · rfl
  · have hhead := (h.of_lineBreak? hn).head
    rw [List.take_one, List.take_one, hhead]
  · obtain ⟨r, rfl⟩ := eq_of_lineBreak?_two hn
    obtain ⟨r', rfl⟩ := eq_of_lineBreak?_two hn'
    rfl

end SameLine

end Text

end DialogueScript
