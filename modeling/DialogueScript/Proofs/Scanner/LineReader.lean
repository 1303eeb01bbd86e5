import DialogueScript.Proofs.Scanner.Closing
import DialogueScript.Scanner.LineReader

/-!
The reader that goes through a text line by line. It always gets to the end of the text, the tokens
it takes are the whole text, and it closes every block that it opens: it looks for the end of the
text in a mode that closes blocks, and only at the start of a line or where no text is left.
-/

namespace DialogueScript

namespace Scanner

variable {s s' : Scanner} {mode : Mode} {l : Lexed}

/-- Each token opens one block, closes one, or leaves the open blocks as they are, and its kind says
which. -/
lemma Takes.depth_eq (hs : s.Sane) (h : Takes s mode l s') :
    s'.stack.depth + [l.token.kind].count .dedent =
      s.stack.depth + [l.token.kind].count .indent := by
  cases h with
  | dedent p hline hd =>
    have := (hs.plan p hline).dedents
    simp only [IndentStack.depth, IndentStack.pop, List.length_dropLast, List.count_singleton]
      at this ⊢
    simp
    omega
  | blank => rfl
  | indent => simp [Token.ofParts, IndentStack.depth, IndentStack.push]
  | mismatch p _ hline hd he hl => simp [hl, Token.ofParts]
  | content _ hidle hblank hl =>
    have hkind : l.token.kind ≠ .dedent ∧ l.token.kind ≠ .indent := by
      subst hl
      rw [content_token, Token.ofParts]
      have hread := reading_next mode (s.body mode)
      generalize Lexeme.next mode (s.body mode) = x, behind mode (s.body mode) = t' at hread
      cases hread with
      | eof | newline => simp
      | plain _ _ _ _ hfits =>
        have hplain := hfits.plain.structural
        constructor <;> intro hk <;> change x.kind = _ at hk <;>
          simp [hk, Kind.isStructural] at hplain
    simp [hkind]

end Scanner

namespace LineReader

open Scanner

/-- Every block that some tokens open is closed again behind its start. -/
structure Balanced (ks : List Kind) : Prop where
  nested : ∀ n, (ks.take n).count .dedent ≤ (ks.take n).count .indent
  total : ks.count .dedent = ks.count .indent

/-- Where the reader stands before a token: in a mode that closes blocks, a line starts here or
nothing is left. -/
structure Ready (mode : Mode) (s : Scanner) : Prop where
  good : s.Good
  closesAll : s.ClosesAll
  place : mode.isIndentSensitive = true → s.lineStart = true ∨ s.rest = []

lemma ready_start (config : Config) (t : Text) : Ready .statement (start config t) where
  good := good_atLine config t 0 IndentStack.rising_empty
  closesAll := by simp [ClosesAll, start, atLine]
  place _ := .inl rfl

/-- How much is left to read: the end of the text can be met once more in a mode that closes no
blocks. -/
def weight (mode : Mode) (s : Scanner) : Nat :=
  2 * s.budget + if mode.isIndentSensitive then 0 else 1

/-- A mode that closes blocks is only chosen at the start of a line and at the end of the text. -/
lemma kind_of_nextMode {mode : Mode} {k : Kind} (h : (nextMode mode k).isIndentSensitive = true) :
    k = .eof ∨ k = .newline ∨ k.isStructural = true := by
  unfold nextMode at h
  split at h
  case h_1 => exact .inl rfl
  case h_2 => exact .inr (.inl rfl)
  case h_3 | h_4 | h_5 => exact .inr (.inr rfl)
  case h_9 => split at h <;> simp [Mode.isIndentSensitive] at h
  all_goals simp [Mode.isIndentSensitive] at h

namespace Ready

variable {mode : Mode} {s : Scanner} (h : Ready mode s)
include h

lemma next : Ready (nextMode mode (s.ahead mode).token.kind) (s.after mode) where
  good := h.good.after mode
  closesAll := (h.good.takes mode).closesAll (h.closesAll.settle mode)
  place hm := by
    rcases kind_of_nextMode hm with hk | hk | hk
    · exact .inr ((h.good.takes mode).of_eof hk).1
    · have hfresh := isFresh_of_newline h.good.toSane hk
      simp only [isFresh, Bool.and_eq_true] at hfresh
      exact .inl hfresh.1.1
    · exact .inl ((h.good.takes mode).of_structural (h.good.settle mode) hk).1

/-- The end of the text closes all blocks before it is found. -/
lemma stack_eq_empty (hm : mode.isIndentSensitive = true) (hk : (s.ahead mode).token.kind = .eof) :
    s.stack = .empty := by
  have hset := settle_of_sensitive s hm
  by_cases hstart : (s.settle mode).lineStart = true
  · have hahead : (s.settle mode).ahead mode = s.ahead mode := by
      rw [ahead, settle_settle, ahead]
    have := (h.closesAll.settle mode).stack_eq_empty (h.good.settle mode) hstart hm
      (.inl (hahead ▸ hk))
    rwa [settle_stack] at this
  · -- nothing is left of the text, and still no line starts: no block is open
    simp only [hset, Bool.or_eq_true, not_or, Bool.not_eq_true] at hstart
    have hrest := (h.place hm).resolve_left (by simp [hstart.1])
    have hnone : s.stack.widths = [] := by
      simpa [atUnterminatedEnd, hrest, Text.dropBlanks, IndentStack.isEmpty] using hstart.2
    exact congrArg IndentStack.mk hnone

/-- Every token but the last leaves less to read. -/
lemma weight_lt (hgo : ¬ ((s.ahead mode).token.kind = .eof ∧ mode.isIndentSensitive = true)) :
    weight (nextMode mode (s.ahead mode).token.kind) (s.after mode) < weight mode s := by
  have ht := h.good.takes mode
  by_cases hk : (s.ahead mode).token.kind = .eof
  · have hm : mode.isIndentSensitive = false := by simpa [hk] using hgo
    obtain ⟨h1, h2, -⟩ := ht.of_eof hk
    rw [settle_of_insensitive s hm] at h2
    simp only [weight, budget, hk, nextMode, h1, h2, hm, Mode.isIndentSensitive_statement]
    simp only [Bool.false_eq_true, if_true, if_false, List.length_nil]
    omega
  · have := ht.budget_lt (h.good.settle mode) hk
    have hbudget : (s.settle mode).budget = s.budget := by simp [budget]
    simp only [weight]
    split <;> split <;> omega

end Ready

/-- What reading on from a place promises: the end is met in a mode that closes blocks, the tokens
are what was left of the text, and they close the open blocks and all that they open. -/
structure Finishes (s : Scanner) (readings : List Reading) (last : Scanner) : Prop where
  ends : ∃ r, readings.getLast? = some r ∧ r.token.kind = .eof ∧ r.mode.isIndentSensitive = true
  text : readings.flatMap (·.token.fullText) = s.rest
  closed : last.stack = .empty
  nested : ∀ n, ((readings.map (·.token.kind)).take n).count .dedent ≤
    s.stack.depth + ((readings.map (·.token.kind)).take n).count .indent
  total : (readings.map (·.token.kind)).count .dedent =
    s.stack.depth + (readings.map (·.token.kind)).count .indent

/-- One token in front of a reading that finishes. -/
lemma Finishes.cons {mode : Mode} {s last : Scanner} {readings : List Reading} (hs : s.Good)
    (h : Finishes (s.after mode) readings last) :
    Finishes s (⟨mode, s.offset, (s.ahead mode).token⟩ :: readings) last := by
  have ht := hs.takes mode
  have hdepth := ht.depth_eq (hs.settle mode)
  have hrest := ht.rest_eq
  rw [settle_stack] at hdepth
  rw [settle_rest] at hrest
  obtain ⟨⟨r, hlast, hr⟩, htext, hclosed, hnested, htotal⟩ := h
  refine ⟨⟨r, ?_, hr⟩, ?_, hclosed, fun n => ?_, ?_⟩
  · rw [List.getLast?_cons, hlast]
    rfl
  · rw [List.flatMap_cons, htext, hrest]
  · rcases n with _ | n
    · simp
    · have := hnested n
      rw [List.map_cons, List.take_succ_cons, ← List.singleton_append, List.count_append,
        List.count_append]
      dsimp only
      omega
  · rw [List.map_cons, ← List.singleton_append, List.count_append, List.count_append]
    dsimp only
    omega

lemma finishes_readUpTo {n : Nat} {mode : Mode} {s : Scanner} (h : Ready mode s)
    (hn : weight mode s < n) : Finishes s (readUpTo n mode s).1 (readUpTo n mode s).2 := by
  induction n generalizing mode s with
  | zero => omega
  | succ n ih =>
    rw [readUpTo]
    simp only [h.good.bump_eq mode]
    by_cases hend : (s.ahead mode).token.kind = .eof ∧ mode.isIndentSensitive = true
    · obtain ⟨hk, hm⟩ := hend
      obtain ⟨hnil, hstack, -⟩ := (h.good.takes mode).of_eof hk
      have hrest := (h.good.takes mode).rest_eq
      have hempty := h.stack_eq_empty hm hk
      rw [settle_rest, hnil, List.append_nil] at hrest
      rw [settle_stack, hempty] at hstack
      rw [if_pos (by simp [hk, hm])]
      refine ⟨⟨_, rfl, hk, hm⟩, by simp [hrest], hstack, fun m => ?_, by simp [hk, hempty,
        IndentStack.depth, IndentStack.empty]⟩
      rcases m with _ | m <;> simp [hk]
    · rw [if_neg (by simpa using hend)]
      have hlt := h.weight_lt hend
      exact (ih h.next (by omega)).cons h.good

/-- **A reader that goes line by line always balances**: it comes to the end of the text in a mode
that closes blocks, its tokens are the text, every block is closed behind where it was opened, and
none is open at the end. -/
theorem read_balanced (config : Config) (t : Text) :
    (∃ r, (read (.start config t)).1.getLast? = some r ∧ r.token.kind = .eof ∧
      r.mode.isIndentSensitive = true) ∧
    (read (.start config t)).1.flatMap (·.token.fullText) = t ∧
    Balanced ((read (.start config t)).1.map (·.token.kind)) ∧
    (read (.start config t)).2.stack = .empty := by
  have hweight : weight .statement (.start config t) < 2 * (Scanner.start config t).budget + 2 := by
    rw [weight, Mode.isIndentSensitive_statement]
    simp
  obtain ⟨hends, htext, hclosed, hnested, htotal⟩ :=
    finishes_readUpTo (ready_start config t) hweight
  have hdepth : (Scanner.start config t).stack.depth = 0 := rfl
  simp only [hdepth, Nat.zero_add] at hnested htotal
  exact ⟨hends, htext, ⟨hnested, htotal⟩, hclosed⟩

end LineReader

end DialogueScript
