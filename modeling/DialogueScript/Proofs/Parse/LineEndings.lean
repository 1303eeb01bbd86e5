import DialogueScript.Proofs.Grammar.Placed
import DialogueScript.Proofs.Grammar.Restyled

/-!
Line endings play no part in a parse. With `\r\n` in the place of every `\n`, the same tree is read
from a text, and the same problems are reported at the same lines and columns.
-/

namespace DialogueScript

open Text

namespace Text

/-- A text with `\r\n` at the ends of its lines. -/
def crlf (t : Text) : Text := t.flatMap fun c => if c = '\n' then ['\r', '\n'] else [c]

@[simp] lemma crlf_nil : crlf [] = [] := rfl

@[simp] lemma crlf_append (s t : Text) : crlf (s ++ t) = crlf s ++ crlf t := by simp [crlf]

@[simp] lemma crlf_newline (t : Text) : crlf ('\n' :: t) = '\r' :: '\n' :: crlf t := by simp [crlf]

lemma crlf_cons {c : Char} (t : Text) (h : c ≠ '\n') : crlf (c :: t) = c :: crlf t := by
  simp [crlf, h]

lemma crlf_of_blank {w : Text} (h : ∀ c ∈ w, isBlank c = true) : crlf w = w := by
  induction w with
  | nil => rfl
  | cons c w ih =>
    have hc : c ≠ '\n' := by
      rintro rfl
      exact absurd (h '\n' (by simp)) (by decide)
    rw [crlf_cons _ hc, ih fun c hc => h c (by simp [hc])]

end Text

/-- A `\n` becomes `\r\n`, and indentations stay as they are. -/
def Restyling.crlf (tabWidth : Nat) : Restyling where
  tabWidth
  breaks b b' := b = ['\n'] ∧ b' = ['\r', '\n']
  indents w w' := w = w' ∧ ∀ c ∈ w, isBlank c = true
  widths a b := a = b
  blank h := ⟨h.2, h.1 ▸ h.2⟩
  nil := ⟨rfl, by simp⟩
  zero := rfl
  measure h := by rw [h.1]
  le_iff h h' := by rw [h, h']

lemma Restyling.tidy_crlf (tabWidth : Nat) : (crlf tabWidth).Tidy := by
  rintro w w' ⟨rfl, -⟩
  rfl

namespace Text

variable {tabWidth : Nat} {t t' : Text}

/-- Every line of a text without `\r` ends as it should for the change. -/
lemma tail_crlf (h : '\r' ∉ t) : Tail (.crlf tabWidth) t (crlf t) := by
  induction hn : t.length using Nat.strong_induction_on generalizing t with
  | _ n ih =>
    rcases t with _ | ⟨c, cs⟩
    · exact .nil
    · have hlen : cs.length < n := by simp [← hn]
      simp only [List.mem_cons, not_or] at h
      by_cases hc : c = '\n'
      · subst hc
        obtain ⟨w, u, hw, hu, rfl⟩ := exists_indentation cs
        have htail : Tail (.crlf tabWidth) u (crlf u) := by
          refine ih u.length ?_ (fun hmem => h.2 (by simp [hmem])) rfl
          rw [List.length_append] at hlen
          omega
        have hstop : Tail (.crlf tabWidth) (['\n'] ++ (w ++ u)) (['\r', '\n'] ++ (w ++ crlf u)) :=
          .stop ⟨rfl, rfl⟩ ⟨rfl, hw⟩ hu htail rfl rfl
        rw [crlf_newline, crlf_append, crlf_of_blank hw]
        exact hstop
      · have hbreak : isLineBreak c = false := by simp [isLineBreak, hc, Ne.symm h.1]
        rw [crlf_cons cs hc]
        exact .step hbreak (ih cs.length hlen h.2 rfl)

lemma lines_crlf (h : '\r' ∉ t) : Lines (.crlf tabWidth) t (crlf t) := by
  obtain ⟨w, u, hw, hu, rfl⟩ := exists_indentation t
  rw [crlf_append, crlf_of_blank hw]
  exact .inl ⟨w, w, u, crlf u, rfl, rfl, ⟨rfl, hw⟩, hu, tail_crlf fun hmem => h (by simp [hmem])⟩

lemma Tail.eq_crlf (h : Tail (.crlf tabWidth) t t') : t' = crlf t := by
  induction h with
  | nil => rfl
  | @step c _ _ hc _ ih =>
    have hne : c ≠ '\n' := fun h => by simp [h, isLineBreak] at hc
    rw [crlf_cons _ hne, ih]
  | stop hb hw _ _ _ _ ih =>
    obtain ⟨rfl, rfl⟩ := hb
    obtain ⟨rfl, hw⟩ := hw
    simp [ih, crlf_of_blank hw]

lemma Lines.eq_crlf (h : Lines (.crlf tabWidth) t t') : t' = crlf t := by
  rcases h with ⟨w, w', u, u', rfl, rfl, ⟨rfl, hw⟩, -, h⟩ | ⟨rfl, h⟩
  · rw [crlf_append, crlf_of_blank hw, h.eq_crlf]
  · exact (crlf_of_blank (List.dropWhile_eq_nil_iff.1 h)).symm

end Text

/-! ### Lines and columns -/

namespace LineCol

/-- A line break is over at the same line and column, whichever it is. -/
lemma foldl_step_crlf (p : LineCol) (s : Text) : (crlf s).foldl step p = s.foldl step p := by
  induction s generalizing p with
  | nil => rfl
  | cons c s ih =>
    by_cases hc : c = '\n'
    · subst hc
      simp [ih, step]
    · rw [crlf_cons s hc, List.foldl_cons, List.foldl_cons, ih]

end LineCol

/-- Places that correspond have the same line and column. -/
lemma PlaceLike.lineCol {tabWidth n n' : Nat} {t : Text}
    (h : PlaceLike (.crlf tabWidth) t (crlf t) n n') :
    ∃ p, LineCol.of? t n = some p ∧ LineCol.of? (crlf t) n' = some p := by
  obtain ⟨rest, rest', ⟨pre, rfl, rfl⟩, ⟨pre', ht', rfl⟩, hrest⟩ := h
  have hrest : rest' = crlf rest := hrest.elim (·.eq_crlf) (·.eq_crlf)
  rw [crlf_append, hrest] at ht'
  obtain rfl := List.append_cancel_right ht'
  refine ⟨_, LineCol.walk?_append .zero pre rest, ?_⟩
  rw [crlf_append, LineCol.of?, LineCol.walk?_append, LineCol.foldl_step_crlf]

namespace Diagnostic

/-- What is said about a problem, and at which lines and columns. -/
def shown (d : Diagnostic) : Problem × String × LineCol × LineCol :=
  (d.problem, d.message, d.start, d.stop)

lemma shown_located_crlf {tabWidth : Nat} {t : Text} {ds ds' : List Diagnostic}
    (h : List.Forall₂ (DiagnosticLike (.crlf tabWidth) t (crlf t)) ds ds') :
    ∃ ls ls', locateAll? t ds = some ls ∧ locateAll? (crlf t) ds' = some ls' ∧
      ls.map shown = ls'.map shown := by
  induction h with
  | nil => exact ⟨[], [], rfl, rfl, rfl⟩
  | @cons d d' ds ds' h _ ih =>
    obtain ⟨start, hstart, hstart'⟩ := h.range.start.lineCol
    obtain ⟨stop, hstop, hstop'⟩ := h.range.stop.lineCol
    obtain ⟨ls, ls', hls, hls', heq⟩ := ih
    have hd : (d.locate t).toOption = some { d with start, stop } := by
      simp only [locate, hstart, hstop]
      rfl
    have hd' : (d'.locate (crlf t)).toOption = some { d' with start, stop } := by
      simp only [locate, hstart', hstop']
      rfl
    rw [locateAll?] at hls hls'
    refine ⟨{ d with start, stop } :: ls, { d' with start, stop } :: ls', ?_, ?_, ?_⟩
    · simp [locateAll?, List.mapM_cons, hd, hls]
    · simp [locateAll?, List.mapM_cons, hd', hls']
    · rw [List.map_cons, List.map_cons, heq, shown, shown, h.problem, h.message]

end Diagnostic

/-! ### Parses -/

/-- A token without what depends on the line endings of the text: the text of a line break or of a
blank line, and the sizes of its trivia. -/
def Token.withoutEndings (l : Token) : Kind × Option Text × List TriviaKind × List TriviaKind :=
  (l.kind, if l.kind = .newline ∨ l.kind = .blankLine then none else l.text?,
    l.leading.map Prod.fst, l.trailing.map Prod.fst)

lemma TokenLike.withoutEndings_eq {R : Restyling} (hR : R.Tidy) {l l' : Token}
    (h : TokenLike R l l') :
    l.withoutEndings = l'.withoutEndings := by
  rw [Token.withoutEndings, Token.withoutEndings, ← h.kind, h.leading hR, h.trailing]
  split
  · rfl
  · next hk => rw [h.text (fun h => hk (.inl h)) fun h => hk (.inr h)]

/-- **The style of line endings plays no part**: with `\r\n` in the place of every `\n`, the same
tree is read, and the same is reported at the same lines and columns. -/
theorem Parse.line_endings (config : Config) {t : Text} (h : '\r' ∉ t) :
    (Parse.ofText config (crlf t)).tree.outline Token.withoutEndings =
        (Parse.ofText config t).tree.outline Token.withoutEndings ∧
      (Parse.ofText config (crlf t)).diagnostics.map Diagnostic.shown =
        (Parse.ofText config t).diagnostics.map Diagnostic.shown := by
  obtain ⟨htree, hdiagnostics⟩ := Parse.restyled (R := .crlf config.tabWidth)
    (fun _ _ h => h.withoutEndings_eq (Restyling.tidy_crlf _)) config rfl (lines_crlf h)
  obtain ⟨ls, ls', hls, hls', heq⟩ := Diagnostic.shown_located_crlf hdiagnostics
  refine ⟨htree.symm, ?_⟩
  rw [Parse.ofText, Parse.ofText, Parse.withCancel, Parse.withCancel, Parse.ofState,
    Parse.ofState, hls, hls']
  exact heq.symm

/-- A comment, a blank line, and a command that its line cuts off. -/
theorem Parse.line_endings_comment :
    (Parse.ofText {} "title: A\r\n---\r\nHi // all\r\n\r\n<<if\r\n===\r\n".toList).tree.outline
          Token.withoutEndings =
        (Parse.ofText {} "title: A\n---\nHi // all\n\n<<if\n===\n".toList).tree.outline
          Token.withoutEndings ∧
      (Parse.ofText {} "title: A\r\n---\r\nHi // all\r\n\r\n<<if\r\n===\r\n".toList).diagnostics.map
          Diagnostic.shown =
        (Parse.ofText {} "title: A\n---\nHi // all\n\n<<if\n===\n".toList).diagnostics.map
          Diagnostic.shown :=
  Parse.line_endings {} (t := "title: A\n---\nHi // all\n\n<<if\n===\n".toList) (by decide)

end DialogueScript
