import DialogueScript.Proofs.Grammar.Placed
import DialogueScript.Proofs.Grammar.Restyled
import DialogueScript.Proofs.IndentStack
import DialogueScript.Proofs.Scanner.Indent
import Mathlib.Order.Monotone.Basic

/-!
Of the widths of indentations only their order matters. Where each indentation is exchanged for
spaces, fewer or more than before, the same tree is read from a text and the same problems are
reported, as long as what is wider than something else stays wider and lines without indentation
stay as they are.
-/

namespace DialogueScript

open Text

namespace Text

/-- A line: the blanks it starts with, what stands behind them, and the line break at its end, which
is missing at the end of a text. -/
structure Line where
  indent : Text
  content : Text
  ending : Text
deriving DecidableEq

namespace Line

def text (l : Line) : Text := l.indent ++ (l.content ++ l.ending)

/-- A line whose first characters up to a line break are given. -/
def of (t ending : Text) : Line := ⟨t.takeWhile isBlank, t.dropWhile isBlank, ending⟩

/-- The line with spaces for its indentation, as many as `f` makes of its width. -/
def reindent (tabWidth : Nat) (f : Nat → Nat) (l : Line) : Line :=
  { l with indent := List.replicate (f (IndentStack.measure tabWidth l.indent)) ' ' }

/-- The second of two lines is nothing but tabs between `\r` and `\n`: without the tabs, the two
would end in one line break. -/
def Merging (l l' : Line) : Prop :=
  l.ending = ['\r'] ∧ l'.indent.all (· = '\t') = true ∧ l'.content = [] ∧ l'.ending = ['\n']

instance (l l' : Line) : Decidable (l.Merging l') :=
  inferInstanceAs (Decidable (_ ∧ _ ∧ _ ∧ _))

end Line

/-- The lines of a text. -/
def lines (t : Text) : List Line :=
  match _h : lineBreak? (t.drop (firstLine t).length) with
  | none => [.of (firstLine t) []]
  | some n =>
    .of (firstLine t) ((t.drop (firstLine t).length).take n) :: lines
      (t.drop ((firstLine t).length + n))
termination_by t.length
decreasing_by
  obtain ⟨c, r, heq, hc⟩ := lineBreak?_eq_some _h
  obtain ⟨m, hm, hpos, -⟩ := lineBreak?_cons_of_break r hc
  have hlen := congrArg List.length heq
  have hn : m = n := by simpa [heq, hm] using _h
  simp only [List.length_drop, List.length_cons] at hlen ⊢
  omega

/-- The text with spaces for each of its indentations, as many as `f` makes of their widths. -/
def reindent (tabWidth : Nat) (f : Nat → Nat) (t : Text) : Text :=
  (lines t).flatMap fun l => (l.reindent tabWidth f).text

/-- The widths at which the lines of a text start. -/
def indentWidths (tabWidth : Nat) (t : Text) : List Nat :=
  (lines t).map fun l => IndentStack.measure tabWidth l.indent

/-- A text is its first line and, where a break ends that, the lines behind it. -/
lemma lines_cases (t : Text) :
    ∃ w u, (∀ c ∈ w, isBlank c = true) ∧ Unspaced u ∧ (∀ c ∈ u, isLineBreak c = false) ∧
      ((t = w ++ u ∧ lines t = [⟨w, u, []⟩]) ∨
        ∃ b r, t = w ++ (u ++ (b ++ r)) ∧ lineBreak? (b ++ r) = some b.length ∧ 0 < b.length ∧
          lines t = ⟨w, u, b⟩ :: lines r) := by
  have hsplit : (firstLine t).takeWhile isBlank ++ (firstLine t).dropWhile isBlank = firstLine t :=
    List.takeWhile_append_dropWhile
  have ht := firstLine_append_drop t
  refine ⟨(firstLine t).takeWhile isBlank, (firstLine t).dropWhile isBlank,
    fun c hc => List.mem_takeWhile_imp hc, unspaced_dropWhile (firstLine t),
    fun c hc => isLineBreak_of_mem_firstLine ((List.dropWhile_suffix _).subset hc), ?_⟩
  rcases hn : lineBreak? (t.drop (firstLine t).length) with _ | n
  · left
    have hnil : t.drop (firstLine t).length = [] := by
      by_contra hne
      simpa [hn] using lineBreak?_drop_firstLine t hne
    rw [hnil, List.append_nil] at ht
    refine ⟨by rw [hsplit, ht], ?_⟩
    rw [lines]
    split
    · rfl
    · next heq => simp [hn] at heq
  · right
    obtain ⟨c, r, heq, hc⟩ := lineBreak?_eq_some hn
    obtain ⟨m, hm, hpos, hle⟩ := lineBreak?_cons_of_break r hc
    obtain rfl : m = n := by simpa [heq, hm] using hn
    have hlen : ((t.drop (firstLine t).length).take m).length = m := by
      rw [List.length_take, heq]
      omega
    refine ⟨(t.drop (firstLine t).length).take m, t.drop ((firstLine t).length + m), ?_, ?_, ?_, ?_⟩
    · rw [← List.append_assoc, hsplit, ← List.drop_drop, List.take_append_drop, ht]
    · rw [← List.drop_drop, List.take_append_drop, hlen, hn]
    · omega
    · rw [lines]
      split
      · next heq' => simp [hn] at heq'
      · next k heq' =>
        obtain rfl : k = m := by simpa [hn] using heq'.symm
        rfl

/-- No character is lost between the lines of a text. -/
lemma flatMap_text_lines (t : Text) : (lines t).flatMap Line.text = t := by
  induction hn : t.length using Nat.strong_induction_on generalizing t with
  | _ n ih =>
    obtain ⟨w, u, -, -, -, ⟨rfl, hlines⟩ | ⟨b, r, rfl, -, hpos, hlines⟩⟩ := lines_cases t
    · simp [hlines, Line.text]
    · have hlt : r.length < n := by
        simp only [List.length_append] at hn
        omega
      simp [hlines, Line.text, ih r.length hlt r rfl]

/-- The line break at the start of a text stays one if something else stands behind it, except that
`\r` and `\n` are one together. -/
lemma lineBreak?_append {b r r' : Text} (h : lineBreak? (b ++ r) = some b.length)
    (hr : b = ['\r'] → r'.head? ≠ some '\n') : lineBreak? (b ++ r') = some b.length := by
  rcases b with _ | ⟨c, _ | ⟨d, _ | ⟨_, b⟩⟩⟩
  · obtain ⟨c, x, rfl, hc⟩ := lineBreak?_eq_some h
    obtain ⟨n, hn, hpos, -⟩ := lineBreak?_cons_of_break x hc
    simp only [List.nil_append, hn, List.length_nil, Option.some.injEq] at h
    omega
  · obtain ⟨_, _, heq, hc⟩ := lineBreak?_eq_some h
    obtain ⟨rfl, rfl⟩ := List.cons.inj heq
    simp only [isLineBreak, Bool.or_eq_true, decide_eq_true_eq] at hc
    rcases hc with rfl | rfl
    · rfl
    · exact lineBreak?_eq_one rfl (hr rfl)
  · simp only [lineBreak?, List.cons_append, List.nil_append] at h
    split at h
    · next heq =>
      simp only [List.cons.injEq] at heq
      obtain ⟨rfl, rfl, -⟩ := heq
      rfl
    all_goals simp at h
  · have hle := lineBreak?_le_two h
    simp at hle

lemma Tail.append {R : Restyling} {u r r' : Text} (hu : ∀ c ∈ u, isLineBreak c = false)
    (h : Tail R r r') : Tail R (u ++ r) (u ++ r') := by
  induction u with
  | nil => exact h
  | cons c u ih => exact .step (hu c (by simp)) (ih fun d hd => hu d (by simp [hd]))

end Text

/-! ### Widths in the same order -/

section
variable {tabWidth : Nat} {widths : List Nat} {f : Nat → Nat} (hzero : f 0 = 0)
  (hmono : StrictMonoOn f {n | n ∈ 0 :: widths}) (hbound : ∀ n ∈ widths, f n < 65536)

/-- Indentations of some widths become spaces, in such a number that their order stays the same. -/
def Restyling.ofWidths (tabWidth : Nat) : Restyling where
  tabWidth
  breaks b b' := b = b'
  indents w w' := IndentStack.measure tabWidth w ∈ 0 :: widths ∧ (∀ c ∈ w, isBlank c = true) ∧
    w' = List.replicate (f (IndentStack.measure tabWidth w)) ' '
  widths n n' := n ∈ 0 :: widths ∧ n' = f n
  blank h := ⟨h.2.1, fun c hc => by
    obtain rfl := List.eq_of_mem_replicate (h.2.2 ▸ hc)
    rfl⟩
  nil := ⟨by simp [IndentStack.measure_nil], by simp, by simp [IndentStack.measure_nil, hzero]⟩
  zero := ⟨by simp, hzero.symm⟩
  measure h := by
    refine ⟨h.1, ?_⟩
    rw [h.2.2]
    refine IndentStack.measure_replicate _ _ ?_
    rcases List.mem_cons.1 h.1 with h0 | hw
    · simp [h0, hzero]
    · exact Nat.le_of_lt_succ (hbound _ hw)
  le_iff h h' := by rw [h.2, h'.2, hmono.le_iff_le h.1 h'.1]

namespace Text

include hzero hmono in
/-- A text that starts with `\n` once its indentations are exchanged has nothing else in its first
line but blanks without a width. -/
lemma lines_of_head?_reindent {t : Text} (hsub : indentWidths tabWidth t ⊆ widths)
    (h : (reindent tabWidth f t).head? = some '\n') :
    ∃ l ls, lines t = l :: ls ∧ IndentStack.measure tabWidth l.indent = 0 ∧ l.content = [] ∧
      l.ending = ['\n'] := by
  have hwidth : ∀ {w u b : Text} {ls : List Line}, lines t = ⟨w, u, b⟩ :: ls →
      (∀ c ∈ u, isLineBreak c = false) →
      IndentStack.measure tabWidth w = 0 ∧ u = [] ∧ (b ++ ls.flatMap fun l =>
        (l.reindent tabWidth f).text).head? = some '\n' := by
    intro w u b ls hlines hu
    have hmem : IndentStack.measure tabWidth w ∈ widths := hsub (by simp [indentWidths, hlines])
    simp only [reindent, hlines, List.flatMap_cons, Line.text, Line.reindent, List.append_assoc]
      at h
    rcases hk : f (IndentStack.measure tabWidth w) with _ | k
    · rw [hk, List.replicate_zero, List.nil_append] at h
      have hzero' :=
        hmono.injOn (List.mem_cons_of_mem _ hmem) List.mem_cons_self (hk.trans hzero.symm)
      rcases u with _ | ⟨c, u⟩
      · exact ⟨hzero', rfl, h⟩
      · obtain rfl : c = '\n' := by simpa using h
        simpa [isLineBreak] using hu '\n' List.mem_cons_self
    · simp [hk, List.replicate_succ] at h
  obtain ⟨w, u, -, -, hu, ⟨-, hlines⟩ | ⟨b, r, -, hlen, hpos, hlines⟩⟩ := lines_cases t
  · simpa using (hwidth hlines hu).2.2
  · obtain ⟨h0, hnil, hb⟩ := hwidth hlines hu
    refine ⟨_, _, hlines, h0, hnil, ?_⟩
    rcases b with _ | ⟨c, b⟩
    · simp at hpos
    · obtain rfl : c = '\n' := by simpa using hb
      simpa [lineBreak?] using hlen

/-- A text and the same text with other indentations are texts with different layouts. -/
lemma indented_reindent {t : Text} (hsub : indentWidths tabWidth t ⊆ widths)
    (htabs : tabWidth = 0 → (lines t).IsChain fun l l' => ¬ l.Merging l') :
    Indented (.ofWidths hzero hmono hbound tabWidth) t (reindent tabWidth f t) := by
  induction hn : t.length using Nat.strong_induction_on generalizing t with
  | _ n ih =>
    obtain ⟨w, u, hw, hspace, hu, hcases⟩ := lines_cases t
    have hmem : ∀ {b : Text} {ls : List Line}, lines t = ⟨w, u, b⟩ :: ls →
        IndentStack.measure tabWidth w ∈ 0 :: widths := fun hlines =>
      List.mem_cons_of_mem _ (hsub (by simp [indentWidths, hlines]))
    rcases hcases with ⟨rfl, hlines⟩ | ⟨b, r, rfl, hlen, hpos, hlines⟩
    · refine ⟨w, _, u, u, rfl, ?_, ⟨hmem hlines, hw, rfl⟩, hspace,
        by simpa using Tail.append hu .nil⟩
      simp [reindent, hlines, Line.text, Line.reindent]
    · have hsub' : indentWidths tabWidth r ⊆ widths := by
        refine List.Subset.trans ?_ hsub
        simp [indentWidths, hlines]
      -- the line break stays one, since no `\n` comes to stand behind a `\r`
      have hlen' : lineBreak? (b ++ reindent tabWidth f r) = some b.length := by
        refine lineBreak?_append hlen fun hb hhead => ?_
        obtain ⟨l, ls, hr, h0, hcontent, hending⟩ := lines_of_head?_reindent hzero hmono hsub' hhead
        have hindent := IndentStack.measure_eq_zero h0
        rcases hl : l.indent with _ | ⟨c, cs⟩
        · have htext := flatMap_text_lines r
          rw [hr, List.flatMap_cons, Line.text, hl, hcontent, hending] at htext
          simp [← htext, hb, lineBreak?] at hlen
        · have hchain := htabs (hindent c (by simp [hl])).2
          rw [hlines, hr, List.isChain_cons_cons] at hchain
          exact hchain.1
            ⟨hb, List.all_eq_true.2 fun c hc => decide_eq_true (hindent c hc).1, hcontent, hending⟩
      have hspace' : Unspaced (u ++ (b ++ r)) := by
        obtain ⟨c, x, heq, hc⟩ := lineBreak?_eq_some hlen
        rcases u with _ | ⟨d, u⟩
        · rw [heq]
          rintro _ ⟨⟩
          exact not_isBlank_of_break c hc
        · exact hspace
      have hlt : r.length < n := by
        simp only [List.length_append] at hn
        omega
      obtain ⟨w₁, w₁', u₁, u₁', hr, hr', hw₁, hu₁, htail⟩ := ih r.length hlt hsub'
        (fun h0 => by
          have hchain := htabs h0
          rw [hlines] at hchain
          exact hchain.of_cons) rfl
      refine ⟨w, _, u ++ (b ++ r), u ++ (b ++ reindent tabWidth f r), rfl, ?_,
        ⟨hmem hlines, hw, rfl⟩, hspace', .append hu ?_⟩
      · simp [reindent, hlines, Line.text, Line.reindent]
      · rw [hr] at hlen ⊢
        rw [hr] at hr' hlen'
        rw [hr'] at hlen' ⊢
        exact .stop rfl hw₁ hu₁ htail hlen hlen'

end Text

end

/-! ### Parses -/

/-- A token without what depends on the indentations of the text: the text of a blank line, and the
sizes of trivia. -/
def Token.withoutIndentation (l : Token) : Kind × Option Text :=
  (l.kind, if l.kind = .blankLine then none else l.text?)

/-- Where line breaks stay as they are. -/
lemma TokenLike.withoutIndentation_eq {R : Restyling} {l l' : Token} (h : TokenLike R l l')
    (hbreaks : ∀ b b', R.breaks b b' → b = b') : l.withoutIndentation = l'.withoutIndentation := by
  have hrel : ∀ {a b : Option Text}, Option.Rel R.breaks a b → a = b := by
    rintro _ _ (hb | _)
    · rw [hbreaks _ _ hb]
    · rfl
  have htext : l.kind ≠ .blankLine → l.text? = l'.text? := by
    intro hblank
    by_cases hk : l.kind = .newline
    · exact hrel (h.breaks hk)
    · exact h.text hk hblank
  rw [Token.withoutIndentation, Token.withoutIndentation, ← h.kind]
  split
  · rfl
  · next hblank => rw [htext hblank]

/-- What is said about a problem. -/
def Diagnostic.said (d : Diagnostic) : Problem × String := (d.problem, d.message)

lemma Parse.map_said_diagnostics (config : Config) (t : Text) :
    (Parse.ofText config t).diagnostics.map Diagnostic.said =
      (Parse.finalState config t none).diagnostics.map Diagnostic.said := by
  have hbare := congrArg (List.map Diagnostic.said)
    (Diagnostic.map_bare_located t (Parse.finalState config t none).diagnostics)
  rwa [List.map_map, List.map_map, show Diagnostic.said ∘ Diagnostic.bare = Diagnostic.said
    from rfl] at hbare

/-- **Only the order of widths matters**: with other indentations whose widths are in the same
order, the same tree is read, and the same is reported. Where tabs have no width, they may not be
all that stands between a `\r` and a `\n`, which would be one line break without them. -/
theorem Parse.reindented (config : Config) {t : Text} {f : Nat → Nat} (hzero : f 0 = 0)
    (hmono : StrictMonoOn f {n | n ∈ 0 :: indentWidths config.tabWidth t})
    (hbound : ∀ n ∈ indentWidths config.tabWidth t, f n < 65536)
    (htabs : config.tabWidth = 0 → (lines t).IsChain fun l l' => ¬ l.Merging l') :
    (Parse.ofText config (reindent config.tabWidth f t)).tree.outline Token.withoutIndentation =
        (Parse.ofText config t).tree.outline Token.withoutIndentation ∧
      (Parse.ofText config (reindent config.tabWidth f t)).diagnostics.map Diagnostic.said =
        (Parse.ofText config t).diagnostics.map Diagnostic.said := by
  have hlines :
      Lines (.ofWidths hzero hmono hbound config.tabWidth) t (reindent config.tabWidth f t) :=
    .inl (indented_reindent hzero hmono hbound (List.Subset.refl _) htabs)
  obtain ⟨htree, hdiagnostics⟩ := Parse.restyled
    (fun _ _ h => h.withoutIndentation_eq fun _ _ h => h) config rfl hlines
  refine ⟨htree.symm, ?_⟩
  rw [Parse.map_said_diagnostics, Parse.map_said_diagnostics, ← List.forall₂_eq_eq_eq,
    List.forall₂_map_left_iff, List.forall₂_map_right_iff]
  exact hdiagnostics.flip.imp fun _ _ h => by
    rw [Diagnostic.said, Diagnostic.said, h.problem, h.message]

/-- Two and four spaces, halved, and a tab without a width behind a lone `\r`. -/
theorem Parse.reindented_halved :
    let t := "title: A\n---\n-> a\r  \tb\n    c\n===\n".toList
    (lines t).IsChain (fun l l' => ¬ l.Merging l') ∧
      (Parse.ofText { tabWidth := 0 } (reindent 0 (· / 2) t)).tree.outline
        Token.withoutIndentation =
        (Parse.ofText { tabWidth := 0 } t).tree.outline Token.withoutIndentation ∧
      (Parse.ofText { tabWidth := 0 } (reindent 0 (· / 2) t)).diagnostics.map Diagnostic.said =
        (Parse.ofText { tabWidth := 0 } t).diagnostics.map Diagnostic.said := by
  intro t
  have hwidths : indentWidths 0 t = [0, 0, 0, 2, 4, 0, 0] := by decide +kernel
  have htabs : (lines t).IsChain fun l l' => ¬ l.Merging l' := by decide +kernel
  refine ⟨htabs, Parse.reindented { tabWidth := 0 } (f := (· / 2)) rfl ?_ ?_ fun _ => htabs⟩
  · change StrictMonoOn _ {n | n ∈ 0 :: indentWidths 0 t}
    rw [hwidths]
    have hmono : ∀ a ∈ [0, 0, 0, 0, 2, 4, 0, 0], ∀ b ∈ [0, 0, 0, 0, 2, 4, 0, 0], a < b →
        a / 2 < b / 2 := by
      decide
    exact fun a ha b hb => hmono a ha b hb
  · change ∀ n ∈ indentWidths 0 t, n / 2 < 65536
    rw [hwidths]
    decide

/-- Without a width for tabs, the tab is all that stands between two line breaks. When it goes, so
does the blank line that parts the options. -/
theorem Parse.reindented_merged :
    let t := "title: A\n---\n-> a\n  b\r\t\n-> b\n===\n".toList
    id 0 = 0 ∧ StrictMonoOn id {n | n ∈ 0 :: indentWidths 0 t} ∧
      (∀ n ∈ indentWidths 0 t, id n < 65536) ∧
      reindent 0 id t = "title: A\n---\n-> a\n  b\r\n-> b\n===\n".toList ∧
      (Parse.ofText { tabWidth := 0 } (reindent 0 id t)).tree.outline Token.withoutIndentation ≠
        (Parse.ofText { tabWidth := 0 } t).tree.outline Token.withoutIndentation := by
  refine ⟨rfl, strictMono_id.strictMonoOn _, by decide +kernel, by decide +kernel, fun h => ?_⟩
  exact absurd (congrArg Outline.leaves h) (by decide +kernel)

end DialogueScript
