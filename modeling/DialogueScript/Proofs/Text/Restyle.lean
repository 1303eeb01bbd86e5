import DialogueScript.IndentStack
import DialogueScript.Proofs.Scanner.Lexeme

/-!
Texts that differ only in their layout: in which break ends a line, and in the blanks at its start.
What stands behind the indentation, up to the end of the line, is the same in both.
-/

namespace DialogueScript

/-- What may stand for what in a text with another layout: line breaks, indentations, and the widths
of indentations, whose order stays the same. -/
structure Restyling where
  tabWidth : Nat
  breaks : Text → Text → Prop
  indents : Text → Text → Prop
  widths : Nat → Nat → Prop
  blank {w w' : Text} : indents w w' → (∀ c ∈ w, isBlank c = true) ∧ ∀ c ∈ w', isBlank c = true
  nil : indents [] []
  zero : widths 0 0
  measure {w w' : Text} : indents w w' →
    widths (IndentStack.measure tabWidth w) (IndentStack.measure tabWidth w')
  le_iff {a a' b b' : Nat} : widths a a' → widths b b' → (a ≤ b ↔ a' ≤ b')

namespace Restyling

variable {R : Restyling} {a a' b b' : Nat}

lemma lt_iff (h : R.widths a a') (h' : R.widths b b') : a < b ↔ a' < b' := by
  rw [← Nat.not_le, ← Nat.not_le, R.le_iff h' h]

lemma eq_iff (h : R.widths a a') (h' : R.widths b b') : a = b ↔ a' = b' := by
  rw [Nat.le_antisymm_iff, Nat.le_antisymm_iff, R.le_iff h h', R.le_iff h' h]

/-- No indentation vanishes, and none is made where there was none. -/
def Tidy (R : Restyling) : Prop := ∀ ⦃w w' : Text⦄, R.indents w w' → (w = [] ↔ w' = [])

end Restyling

namespace Text

lemma exists_indentation (t : Text) :
    ∃ w u, (∀ c ∈ w, isBlank c = true) ∧ Unspaced u ∧ t = w ++ u :=
  ⟨t.takeWhile isBlank, t.dropWhile isBlank, fun _ hc => List.mem_takeWhile_imp hc,
    unspaced_dropWhile t, List.takeWhile_append_dropWhile.symm⟩

lemma lineBreak?_eq_some {t : Text} {n : Nat} (h : lineBreak? t = some n) :
    ∃ c r, t = c :: r ∧ isLineBreak c = true := by
  rcases t with _ | ⟨c, r⟩
  · simp [lineBreak?] at h
  · refine ⟨c, r, rfl, ?_⟩
    by_contra hc
    simp [lineBreak?_cons r (by simpa using hc)] at h

lemma firstLine_of_lineBreak? {t : Text} {n : Nat} (h : lineBreak? t = some n) :
    firstLine t = [] := by
  obtain ⟨c, r, rfl, hc⟩ := lineBreak?_eq_some h
  exact firstLine_cons_of_break r hc

/-- Two texts with different layouts, from somewhere behind the indentation of a line on. -/
inductive Tail (R : Restyling) : Text → Text → Prop where
  | nil : Tail R [] []
  | step {c : Char} {t t' : Text} : isLineBreak c = false → Tail R t t' → Tail R (c :: t) (c :: t')
  | stop {b b' w w' u u' : Text} : R.breaks b b' → R.indents w w' → Unspaced u → Tail R u u' →
      lineBreak? (b ++ (w ++ u)) = some b.length → lineBreak? (b' ++ (w' ++ u')) = some b'.length →
      Tail R (b ++ (w ++ u)) (b' ++ (w' ++ u'))

/-- Two texts with different layouts, from the start of a line on. -/
def Indented (R : Restyling) (t t' : Text) : Prop :=
  ∃ w w' u u', t = w ++ u ∧ t' = w' ++ u' ∧ R.indents w w' ∧ Unspaced u ∧ Tail R u u'

/-- The two texts end with the same blanks, which may have been left from a line that has begun. -/
def Lines (R : Restyling) (t t' : Text) : Prop := Indented R t t' ∨ (t = t' ∧ dropBlanks t = [])

/-- Two texts with different layouts, from a line break on. -/
structure Ends (R : Restyling) (t t' b b' r r' : Text) : Prop where
  left : t = b ++ r
  right : t' = b' ++ r'
  breaks : R.breaks b b'
  lineBreak : lineBreak? t = some b.length
  lineBreak' : lineBreak? t' = some b'.length
  indented : Indented R r r'

namespace Tail

variable {R : Restyling} {t t' : Text}

lemma drop (h : Tail R t t') {n : Nat} (hn : n ≤ (firstLine t).length) :
    Tail R (t.drop n) (t'.drop n) := by
  induction h generalizing n with
  | nil => simpa using Tail.nil
  | @step c t t' hc h ih =>
    rcases n with _ | n
    · exact .step hc h
    · rw [firstLine_cons _ hc, List.length_cons] at hn
      exact ih (by omega)
  | stop hb hw hu h hl hl' =>
    rw [firstLine_of_lineBreak? hl, List.length_nil] at hn
    obtain rfl : n = 0 := by omega
    exact .stop hb hw hu h hl hl'

/-- The two texts are the same, or their lines end with breaks that need not be the same. -/
lemma sameLine (h : Tail R t t') : t = t' ∨ SameLine (fun _ _ => True) t t' := by
  induction h with
  | nil => exact .inl rfl
  | step hc _ ih =>
    rcases ih with rfl | ih
    · exact .inl rfl
    · exact .inr (.step hc ih)
  | stop _ _ _ _ hl hl' =>
    obtain ⟨c, r, h1, hc⟩ := lineBreak?_eq_some hl
    obtain ⟨c', r', h2, hc'⟩ := lineBreak?_eq_some hl'
    rw [h1, h2]
    exact .inr (.stop r r' hc hc' trivial)

lemma ends (h : Tail R t t') {n : Nat} (hn : lineBreak? t = some n) :
    ∃ b b' r r', Ends R t t' b b' r r' := by
  cases h with
  | nil => simp [lineBreak?] at hn
  | step hc => simp [lineBreak?_cons _ hc] at hn
  | stop hb hw hu h hl hl' =>
    exact ⟨_, _, _, _, rfl, rfl, hb, hl, hl', _, _, _, _, rfl, rfl, hw, hu, h⟩

lemma isSome_lineBreak? (h : Tail R t t') : (lineBreak? t).isSome = (lineBreak? t').isSome := by
  rcases h.sameLine with rfl | h
  · rfl
  · exact h.isSome_lineBreak?

lemma firstLine_eq (h : Tail R t t') : firstLine t = firstLine t' := by
  rcases h.sameLine with rfl | h
  · rfl
  · exact h.firstLine_eq

lemma take_eq (h : Tail R t t') {n : Nat} (hn : n ≤ (firstLine t).length) :
    t.take n = t'.take n := by
  rcases h.sameLine with rfl | h
  · rfl
  · exact h.take_eq hn

lemma isEmpty_dropBlanks (h : Tail R t t') : (dropBlanks t).isEmpty = (dropBlanks t').isEmpty := by
  rcases h.sameLine with rfl | h
  · rfl
  · rw [List.isEmpty_eq_false_iff.2 h.dropBlanks.ne_nil.1,
      List.isEmpty_eq_false_iff.2 h.dropBlanks.ne_nil.2]

/-- Where nothing but blanks is left, they are the same. -/
lemma lines (h : Tail R t t') (hnil : dropBlanks t = []) : Lines R t t' := by
  rcases h.sameLine with rfl | h
  · exact .inr ⟨rfl, hnil⟩
  · exact absurd hnil h.dropBlanks.ne_nil.1

lemma unspaced (h : Tail R t t') (ht : Unspaced t) : Unspaced t' := by
  have heq : t.takeWhile isBlank = t'.takeWhile isBlank := by
    rcases h.sameLine with rfl | h
    · rfl
    · exact h.takeWhile_eq not_isBlank_of_break
  rwa [unspaced_iff, ← heq, ← unspaced_iff]

/-- A line that is not indented on either side. -/
lemma indented (h : Tail R t t') (ht : Unspaced t) : Indented R t t' :=
  ⟨[], [], t, t', rfl, rfl, R.nil, ht, h⟩

end Tail

end Text

end DialogueScript
