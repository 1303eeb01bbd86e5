/-!
The settings a script is read with.
-/

namespace DialogueScript

/-- When a blank line after an option or line-group item ends the group. -/
inductive OptionBreak where
  /-- Only after an item whose nested block was just closed. -/
  | afterNestedBlock
  /-- After every item. -/
  | afterAnyItem
  /-- Blank lines never end a group. -/
  | never
deriving DecidableEq, Repr, Inhabited

structure Config where
  /-- The columns that a tab adds to an indentation. -/
  tabWidth : Nat := 8
  optionBreak : OptionBreak := .afterNestedBlock
  /-- Whether line groups are split by blank lines the way options are. -/
  breakLineGroups : Bool := true
deriving DecidableEq, Repr, Inhabited

/-- Whether a blank line after an item ends its group. -/
def Config.breaksAfter (c : Config) (hadBlock lineGroup : Bool) : Bool :=
  if lineGroup && !c.breakLineGroups then false
  else
    match c.optionBreak with
    | .afterNestedBlock => hadBlock
    | .afterAnyItem => true
    | .never => false

/-- **When a blank line ends a group**: not where blank lines never do, not in a line group unless
those are split as well, and only behind a block where a block has to stand in front. -/
theorem Config.breaksAfter_iff {c : Config} {hadBlock lineGroup : Bool} :
    c.breaksAfter hadBlock lineGroup = true ↔ c.optionBreak ≠ .never ∧
      (lineGroup = true → c.breakLineGroups = true) ∧
      (c.optionBreak = .afterNestedBlock → hadBlock = true) := by
  unfold breaksAfter
  cases c.optionBreak <;> cases c.breakLineGroups <;> cases lineGroup <;> simp

end DialogueScript
