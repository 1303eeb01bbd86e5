import DialogueScript.Proofs.Scanner.Spelling
import Mathlib.Data.List.TakeWhile

/-!
Lines that are indented by four spaces for each open block: what the scanner plans for them, with
any number of blocks open.
-/

namespace DialogueScript

/-- A text that starts with something to read: no blank, no line break and no comment. -/
structure Text.Content (t : Text) : Prop where
  ne_nil : t ≠ []
  blank : Text.Unspaced t
  lineBreak : Text.lineBreak? t = none
  comment : Text.startsComment t = false

/-- The indentation of a line in the given number of blocks. -/
def pad (j : Nat) : Text := List.replicate (4 * j) ' '

lemma isBlank_pad (j : Nat) : (pad j).all isBlank = true := by simp [pad, isBlank]

/-- The text `r` starts with a line of content `c` in `j` blocks. A line that closes all blocks is
not indented. -/
structure LineOf (j : Nat) (c r : Text) : Prop where
  eq : r = pad j ++ c
  content : c.Content
  closes : closesBlocks c = true → j = 0
  width : 4 * j ≤ IndentStack.maxWidth

namespace IndentStack

/-- The blocks that lines with this indentation open. -/
def nested (d : Nat) : IndentStack := ⟨(List.range d).map fun i => 4 * (i + 1)⟩

@[simp] lemma depth_nested (d : Nat) : (nested d).depth = d := by simp [nested, depth]

lemma nested_succ (d : Nat) : nested (d + 1) = (nested d).push (4 * (d + 1)) := by
  simp [nested, push, List.range_succ]

lemma pop_nested_succ (d : Nat) : (nested (d + 1)).pop = nested d := by
  simp [nested, pop, List.range_succ]

lemma kept_nested (d j : Nat) : (nested d).kept (4 * j) = (nested (min d j)).widths := by
  have hsplit : d = min d j + (d - min d j) := by omega
  rw [kept, nested, nested]
  conv_lhs => rw [hsplit, List.range_add, List.map_append]
  rw [List.takeWhile_append_of_pos]
  · rcases hrest : d - min d j with _ | n
    · simp
    · have hj : min d j = j := by omega
      rw [List.range_succ_eq_map]
      simp [hj]
  · intro w hw
    simp only [List.mem_map, List.mem_range] at hw
    obtain ⟨i, hi, rfl⟩ := hw
    simp only [decide_eq_true_eq]
    omega

lemma getLastD_nested (d : Nat) : (nested d).widths.getLastD 0 = 4 * d := by
  rcases d with _ | d
  · rfl
  · rw [nested_succ, push, List.getLastD_concat]

lemma measure_replicate (tabWidth n : Nat) (h : n ≤ maxWidth) :
    measure tabWidth (List.replicate n ' ') = n := by
  induction n with
  | zero => rfl
  | succ n ih =>
    rw [List.replicate_succ', measure, List.foldl_append]
    have := ih (by omega)
    rw [measure] at this
    rw [this]
    simp
    omega

end IndentStack

open IndentStack

/-- What such a line asks for in front of its first token: with `d` blocks open, it belongs into
`j`. -/
structure LinePlan.Leads (d j : Nat) (p : LinePlan) : Prop where
  dedents : p.dedents = d - j
  blank : p.blank = none
  entry : p.entry = if d < j then .deeper (4 * (d + 1)) else .level

lemma LinePlan.Leads.blankAt? {d j : Nat} {p : LinePlan} (h : p.Leads d j) (n : Nat) :
    p.blankAt? n = none := by
  rw [LinePlan.blankAt?, h.blank]
  rfl

section
variable {b c r : Text}

lemma gap_content (hb : b.all isBlank = true) (hc : c.Content) :
    gap true true (b ++ c) = blankTrivia (b ++ c) ∧ Trivia.concat (blankTrivia (b ++ c)) = b := by
  have hconcat := blankTrivia_append hb hc.blank
  refine ⟨?_, hconcat⟩
  simp only [gap, if_true, hconcat, List.drop_left]
  simp [commentTrivia, hc.comment]

lemma lineTrivia_content (hb : b.all isBlank = true) (hc : c.Content) :
    lineTrivia (b ++ c) = blankTrivia (b ++ c) := by
  obtain ⟨h1, h2⟩ := gap_content hb hc
  rw [lineTrivia_of_none, h1]
  rw [gapLength, h1, h2, List.drop_left]
  exact hc.lineBreak

lemma contentOf_content (hb : b.all isBlank = true) (hc : c.Content) : contentOf (b ++ c) = c := by
  rw [contentOf, lineTrivia_content hb hc, (gap_content hb hc).2, List.drop_left]

lemma planLine_line {config : Config} {d j : Nat} (h : LineOf j c r) (hj : j ≤ d + 1) (n : Nat) :
    (planLine config (nested d) n r).Leads d j := by
  obtain ⟨rfl, hc, hcloses, hwidth⟩ := h
  have htrivia := lineTrivia_content (isBlank_pad j) hc
  have hdrop := contentOf_content (isBlank_pad j) hc
  have hblank : leadingBlankLine? (lineTrivia (pad j ++ c)) = none := by
    rw [htrivia, blankTrivia]
    split <;> rfl
  have hindent : indentationOf (lineTrivia (pad j ++ c)) = pad j := by
    rw [htrivia, indentationOf_blankTrivia]
    exact Text.takeWhile_append (isBlank_pad j) hc.blank
  have hmeasure : measure config.tabWidth (pad j) = 4 * j := measure_replicate _ _ hwidth
  have hlast := getLastD_nested (min d j)
  have hlen : (nested (min d j)).widths.length = min d j := depth_nested _
  rw [planLine_eq, hdrop, hblank, hindent]
  simp only [lineEntry, hmeasure, kept_nested, hlast, hlen, depth_nested]
  rcases hcl : closesBlocks c with _ | _
  · rcases Nat.lt_or_ge d j with hlt | hge
    · have h1 : min d j = d := by omega
      have h2 : j = d + 1 := by omega
      exact ⟨by simp [h2], rfl, by simp [h2]⟩
    · have h1 : min d j = j := by omega
      exact ⟨by simp [h1], rfl, by simp [h1, Nat.not_lt.2 hge]⟩
  · obtain rfl := hcloses hcl
    exact ⟨by simp, rfl, by simp⟩

lemma LineOf.unique {j j' : Nat} {c' : Text} (h : LineOf j c r) (h' : LineOf j' c' r) :
    j = j' ∧ c = c' := by
  have heq : pad j ++ c = pad j' ++ c' := h.eq ▸ h'.eq
  have h1 := contentOf_content (isBlank_pad j) h.content
  have h2 := contentOf_content (isBlank_pad j') h'.content
  rw [heq, h2] at h1
  refine ⟨?_, h1.symm⟩
  have hlen := congrArg List.length heq
  simp [pad, h1] at hlen
  omega

end

end DialogueScript
