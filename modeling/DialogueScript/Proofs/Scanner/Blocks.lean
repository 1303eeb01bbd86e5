import DialogueScript.Proofs.Scanner.Calls
import DialogueScript.Proofs.Scanner.Errors

/-!
The open blocks under any sequence of calls. The plan of a line is made for the blocks that are open
at its start and is carried out one token at a time, while calls in any other mode may come in
between. It stays in step with the blocks: one that is opened is wider than those around it, one
that is closed was open, and the plan never asks for more blocks to be closed than there are.
-/

namespace DialogueScript

namespace Scanner

/-- How many blocks the plan of the current line still closes, where there is a plan. -/
def pending (s : Scanner) : Option Nat := s.line.map (·.dedents)

/-- Looking changes no blocks. At most it makes the plan of a new line, which closes no more blocks
than are open. -/
structure Plans (s s' : Scanner) : Prop where
  stack : s'.stack = s.stack
  pending : s'.pending = s.pending ∨
    s.pending = none ∧ ∃ n, s'.pending = some n ∧ n ≤ s.stack.depth

/-- What taking a token of a kind does to the open blocks and to those that are still to be
closed. -/
inductive Moves (s : Scanner) (k : Kind) (s' : Scanner) : Prop where
  | opens (width : Nat) : k = .indent → s.stack.top < width → s'.stack = s.stack.push width →
      s'.pending = s.pending → Moves s k s'
  | closes (n : Nat) : k = .dedent → s.stack ≠ .empty → s'.stack = s.stack.pop →
      s.pending = some (n + 1) → s'.pending = some n → Moves s k s'
  | keeps : k ≠ .indent → k ≠ .dedent → s'.stack = s.stack →
      (s'.pending = s.pending ∨ s'.pending = none) → Moves s k s'

/-- What a call may do to the open blocks. To take a token the scanner first looks at it, unless it
has done so. -/
def Orderly (s : Scanner) : Call → Prop
  | .bump mode =>
    s.Plans (s.lexed mode).2 ∧ (s.lexed mode).2.Moves (s.bump mode).1.token.kind (s.bump mode).2
  | .peek mode => s.Plans (s.peek mode).2
  | .peekCommandKeyword mode => s.Plans (s.peekCommandKeyword mode).2
  | .takeDiagnostics => s.Plans s.takeDiagnostics.2
  | .bumpRest => s.bumpRest.2.stack = .empty ∧ s.bumpRest.2.pending = none

variable {s : Scanner}

lemma Sane.pending_le (h : s.Sane) {n : Nat} (hn : s.pending = some n) : n ≤ s.stack.depth := by
  obtain ⟨p, hline, rfl⟩ := Option.map_eq_some_iff.1 hn
  exact (h.plan p hline).dedents

/-- A plan that was made is kept. -/
lemma line_settle_of_some {p : LinePlan} (h : s.line = some p) (mode : Mode) :
    (s.settle mode).line = some p := by
  cases hm : mode.isIndentSensitive
  · rwa [settle_of_insensitive s hm]
  · rw [settle_of_sensitive s hm]
    simp [h]

lemma Sane.plans_settle (h : s.Sane) (mode : Mode) : s.Plans (s.settle mode) := by
  refine ⟨settle_stack s mode, ?_⟩
  rcases Option.eq_none_or_eq_some s.line with hline | ⟨p, hline⟩
  · have hnone : s.pending = none := by rw [pending, hline, Option.map_none]
    rcases Option.eq_none_or_eq_some (s.settle mode).pending with hp | ⟨n, hp⟩
    · exact .inl (hp.trans hnone.symm)
    · have hle := (h.settle mode).pending_le hp
      rw [settle_stack] at hle
      exact .inr ⟨hnone, n, hp, hle⟩
  · left
    rw [pending, line_settle_of_some hline, pending, hline]

lemma Good.plans_looking (h : s.Good) (mode : Mode) : s.Plans (s.looking mode) :=
  ⟨(h.plans_settle mode).stack, (h.plans_settle mode).pending⟩

/-- Every token that is taken keeps the plan and the blocks in step. -/
lemma Takes.moves {s' : Scanner} {mode : Mode} {l : Lexed} (ht : Takes s mode l s') (h : s.Sane) :
    s.Moves l.token.kind s' := by
  cases ht with
  | dedent p hline hd =>
    have hle := (h.plan p hline).dedents
    have hne : s.stack ≠ .empty := by
      intro hnil
      rw [hnil] at hle
      exact absurd hle (by simp [IndentStack.depth, IndentStack.empty]; omega)
    have hpending : s.pending = some (p.dedents - 1 + 1) := by
      rw [pending, hline, Option.map_some, Nat.sub_add_cancel hd]
    exact .closes (p.dedents - 1) rfl hne rfl hpending rfl
  | blank p b t' hm hline hd hb hrest =>
    exact .keeps (by simp) (by simp) rfl (.inl (by rw [pending, pending, hline]; rfl))
  | indent p w hline hd he =>
    have htop := ((h.plan p hline).deeper w he).2
    rw [hd, Nat.sub_zero, IndentStack.depth, List.take_length] at htop
    exact .opens w rfl htop rfl (by rw [pending, pending, hline]; rfl)
  | mismatch p l hline hd he hl =>
    subst hl
    exact .keeps (by simp [Token.ofParts]) (by simp [Token.ofParts]) rfl (.inr rfl)
  | content l hidle hblank hl =>
    have hk := content_not_structural s mode
    rw [← hl] at hk
    refine .keeps ?_ ?_ rfl (.inr rfl) <;>
      · intro heq
        rw [heq] at hk
        exact absurd hk (by decide)

lemma Good.orderly (h : s.Good) (c : Call) : s.Orderly c := by
  cases c with
  | bump mode =>
    rw [Orderly, h.lexed_eq, h.bump_eq]
    exact ⟨h.plans_settle mode, (h.takes mode).moves (h.settle mode)⟩
  | peek mode =>
    rw [Orderly, h.peek_eq]
    exact h.plans_looking mode
  | peekCommandKeyword mode =>
    rw [Orderly, h.peekCommandKeyword_eq]
    exact h.plans_looking mode
  | takeDiagnostics => exact ⟨rfl, .inl rfl⟩
  | bumpRest =>
    rw [Orderly, bumpRest]
    split <;> exact ⟨rfl, rfl⟩

/-- **Plan and blocks stay in step**, whatever was asked of a scanner before: the widths of the open
blocks grow and are not zero, the plan of the line closes no more blocks than are open, and whatever
is asked next opens only a block that is wider than the innermost one and closes only a block that
is open and that the plan still asks to be closed. -/
theorem blocks_in_step {config : Config} {t : Text} {offset : Nat} {stack : IndentStack}
    {start : Scanner} (hstart : resume? config t offset stack = some start) (hstack : stack.Rising)
    (cs : List Call) :
    (start.calls cs).2.stack.Rising ∧
      (∀ n, (start.calls cs).2.pending = some n → n ≤ (start.calls cs).2.stack.depth) ∧
      ∀ c, (start.calls cs).2.Orderly c := by
  obtain ⟨heq, hwithin⟩ := within_of_resume? hstart
  have hgood : start.Good := heq ▸ good_atLine config start.rest offset hstack
  have hnow : (start.calls cs).2.Good := (calls_spec hgood hwithin cs).1
  exact ⟨hnow.rising, fun _ hn => hnow.pending_le hn, hnow.orderly⟩

/-- Two of three blocks are to be closed at a line of the first block's width. One is closed, text
is looked at in another mode, and the next one is closed from there. -/
theorem blocks_in_step_midway :
    resume? {} "é\n  a\n".toList 3 ⟨[2, 4, 6]⟩ = some (atLine {} "  a\n".toList 3 ⟨[2, 4, 6]⟩) ∧
      (IndentStack.mk [2, 4, 6]).Rising ∧
      ((atLine {} "  a\n".toList 3 ⟨[2, 4, 6]⟩).calls
        [.bump .statement, .peek .text]).2.stack = ⟨[2, 4]⟩ ∧
      ((atLine {} "  a\n".toList 3 ⟨[2, 4, 6]⟩).calls
        [.bump .statement, .peek .text]).2.pending = some 1 ∧
      ((atLine {} "  a\n".toList 3 ⟨[2, 4, 6]⟩).calls
        [.bump .statement, .peek .text]).2.Orderly (.bump .afterOption) := by
  have hstart : resume? {} "é\n  a\n".toList 3 ⟨[2, 4, 6]⟩ =
      some (atLine {} "  a\n".toList 3 ⟨[2, 4, 6]⟩) := by decide +kernel
  have hrising : (IndentStack.mk [2, 4, 6]).Rising := by decide
  have hstep := blocks_in_step hstart hrising [.bump .statement, .peek .text]
  exact ⟨hstart, hrising, by decide +kernel, by decide +kernel, hstep.2.2 _⟩

end Scanner

end DialogueScript
