import DialogueScript.Kind

/-!
The operators, with the keyword and the symbol spellings of each folded together.
-/

namespace DialogueScript

inductive BinaryOp where
  | and | or | xor
  | eq | neq
  | lt | gt | lte | gte
  | add | sub
  | mul | div | rem
deriving DecidableEq, Repr

namespace BinaryOp

def ofKind? : Kind → Option BinaryOp
  | .andKw | .amp2 => some and
  | .orKw | .pipe2 => some or
  | .xorKw | .caret => some xor
  | .eq2 | .isKw | .eqKw => some eq
  | .neq | .neqKw => some neq
  | .lt | .ltKw => some lt
  | .gt | .gtKw => some gt
  | .lteq | .lteKw => some lte
  | .gteq | .gteKw => some gte
  | .plus => some add
  | .minus => some sub
  | .star => some mul
  | .slash => some div
  | .percent => some rem
  | _ => none

/-- How tightly an operator binds; a higher number binds tighter. -/
def precedence : BinaryOp → Nat
  | and | or | xor => 2
  | eq | neq => 3
  | lt | gt | lte | gte => 4
  | add | sub => 5
  | mul | div | rem => 6

def label : BinaryOp → String
  | and => "And" | or => "Or" | xor => "Xor"
  | eq => "Eq" | neq => "Neq"
  | lt => "Lt" | gt => "Gt" | lte => "Lte" | gte => "Gte"
  | add => "Add" | sub => "Sub"
  | mul => "Mul" | div => "Div" | rem => "Rem"

/-- The tightest level of the binary operators. -/
def maxPrecedence : Nat := 6

theorem precedence_le (op : BinaryOp) : op.precedence ≤ maxPrecedence := by
  cases op <;> decide

end BinaryOp

inductive UnaryOp where
  | neg | not
deriving DecidableEq, Repr

namespace UnaryOp

def ofKind? : Kind → Option UnaryOp
  | .minus => some neg
  | .bang | .notKw => some not
  | _ => none

/-- Unary operators bind tighter than every binary one. -/
def precedence : Nat := 7

def label : UnaryOp → String
  | neg => "Neg" | not => "Not"

end UnaryOp

inductive AssignOp where
  | assign | add | sub | mul | div | rem
deriving DecidableEq, Repr

namespace AssignOp

def ofKind? : Kind → Option AssignOp
  | .eq | .toKw => some assign
  | .plusEq => some add
  | .minusEq => some sub
  | .starEq => some mul
  | .slashEq => some div
  | .percentEq => some rem
  | _ => none

def label : AssignOp → String
  | assign => "Assign" | add => "Add" | sub => "Sub" | mul => "Mul" | div => "Div" | rem => "Rem"

end AssignOp

end DialogueScript
