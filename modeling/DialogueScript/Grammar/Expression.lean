import DialogueScript.Grammar.Recovery
import DialogueScript.Operator

/-!
Expressions. Binary operators are read by climbing the levels of precedence, and each operand takes
one of the nesting levels that are left: at none, the operand is passed over.

A rule for an expression answers with the kind of the node that it made, if it made one.
-/

namespace DialogueScript

namespace Parser

/-- How deep statements and expressions can nest. -/
def maxDepth : Nat := 128

/-- The tokens that an expression can start with. -/
def exprFirst : KindSet :=
  .ofList [.leftParen, .number, .string, .dollar, .trueKw, .falseKw, .nullKw, .ident, .dot, .minus,
    .bang, .notKw]

/-- The tokens that a damaged expression never takes. -/
def exprRecovery : KindSet :=
  .ofList [.commandEnd, .rightBrace, .rightParen, .comma, .newline, .eof]

/-! ### Operands -/

/-- A step over the tokens of an operand that is nested too deeply. -/
def deepStep (opened : Nat) : Parser (ForInStep Nat) := do
  let kind ← peekKind .expr
  if kind = .leftParen then
    advance .expr
    return .yield (opened + 1)
  else if kind = .rightParen && 0 < opened then
    advance .expr
    return .yield (opened - 1)
  else if exprRecovery.contains kind then return .done opened
  else
    advance .expr
    return .yield opened

/-- Passes over an operand that is nested too deeply. Parentheses stay balanced, so those around it
still find their ends. -/
def tooDeep : Parser (Option Kind) := do
  node .error do
    error .expr "expression is nested too deeply"
    let _ ← loop deepStep 0
  return some .error

/-- A variable: `$` and its name. -/
def variableExpr : Parser Unit :=
  node .variableExpr do
    advance .expr
    let _ ← expect .name .ident "expected a variable name"

/-- The dot of a member and its name. -/
def memberName : Parser Unit := do
  advance .expr
  name exprRecovery

/-- What follows an argument: the comma in front of the next one, or the end of the arguments. -/
def argEnd : Parser (ForInStep Unit) := do
  if ← eat .expr .comma then return .yield ()
  if ← isAtAny .expr exprFirst then
    let _ ← expect .expr .comma "expected `,`"
    return .yield ()
  else return .done ()

/-- A step over the arguments of a call, where `expr` is the rule for each. -/
def argStep (expr : Parser (Option Kind)) : Parser (ForInStep Unit) := do
  if (← isAt .expr .rightParen) || (← isAtAny .expr commandEnds) then return .done ()
  if ← isAt .expr .comma then
    node .error do
      error .expr "expected an argument"
      advance .expr
    return .yield ()
  if (← expr).isNone then return .done ()
  argEnd

/-- The arguments of a call in parentheses. -/
def argList (expr : Parser (Option Kind)) : Parser Unit :=
  node .argList do
    advance .expr
    let _ ← loop (fun _ => argStep expr) ()
    let _ ← expect .expr .rightParen "expected `)`"

/-- Takes a word. Answers what it is, by the token behind it. -/
def wordKind : Parser Kind := do
  advance .expr
  match ← peekKind .expr with
  | .leftParen | .dot => return .name
  | _ => return .identExpr

/-- What follows a word that is no plain name: the arguments of a call, or a dot and a name. -/
def wordTail (expr : Parser (Option Kind)) : Parser Kind := do
  if ← isAt .expr .leftParen then
    nodeAround .callExpr (argList expr)
    return .callExpr
  else
    nodeAround .memberExpr memberName
    return .memberExpr

/-- A word: a call if an argument list follows, a member if a dot does, else a plain name. -/
def wordExpr (expr : Parser (Option Kind)) : Parser Kind := do
  let head ← nodeOf wordKind
  if head = .identExpr then return .identExpr
  wordTail expr

def literalExpr (kind : Kind) : Parser (Option Kind) := do
  node kind (advance .expr)
  return some kind

/-- An expression in parentheses. -/
def parens (expr : Parser (Option Kind)) : Parser Unit :=
  node .parenExpr do
    advance .expr
    let _ ← expr
    let _ ← expect .expr .rightParen "expected `)`"

/-- An operand without a unary operator, by the token that stands next, where `expr` is the rule for
expressions inside it. -/
def primaryAt (expr : Parser (Option Kind)) : Kind → Parser (Option Kind)
  | .number => literalExpr .numberExpr
  | .string => literalExpr .stringExpr
  | .trueKw | .falseKw => literalExpr .boolExpr
  | .nullKw => literalExpr .nullExpr
  | .leftParen => do
    parens expr
    return some .parenExpr
  | .dollar => do
    variableExpr
    return some .variableExpr
  | .dot => do
    node .memberExpr memberName
    return some .memberExpr
  | .ident => return some (← wordExpr expr)
  | _ => do
    errorRecover .expr "expected expression" exprRecovery
    return none

def primaryExpr (expr : Parser (Option Kind)) : Parser (Option Kind) := do
  primaryAt expr (← peekKind .expr)

/-! ### Operators -/

/-- A step over the operators behind an operand that bind tighter than `floor`. What an operator
joins to the operand is read by `tighter`, which is given the floor for it. -/
def operatorStep (tighter : Nat → Parser (Option Kind)) (floor : Nat) (whole : Kind) :
    Parser (ForInStep Kind) := do
  match BinaryOp.ofKind? (← peekKind .expr) with
  | none => return .done whole
  | some op =>
    if op.precedence ≤ floor then return .done whole
    nodeAround .binaryExpr do
      advance .expr
      let _ ← tighter op.precedence
    return .yield .binaryExpr

/-- All operators behind a first operand. -/
def operators (tighter : Nat → Parser (Option Kind)) (floor : Nat) (first : Kind) :
    Parser (Option Kind) := do
  let whole ← loop (operatorStep tighter floor) first
  return some whole

/-- Reads operands joined by operators that bind tighter than `floor`. The first number bounds how
often the floor can rise. -/
def climb (operand : Parser (Option Kind)) : Nat → Nat → Parser (Option Kind)
  | 0, _ => operand
  | tiers + 1, floor => do
    match ← operand with
    | none => return none
    | some first => operators (climb operand tiers) floor first

/-- An expression over a rule for its operands. -/
def exprOf (operand : Parser (Option Kind)) : Parser (Option Kind) :=
  climb operand (BinaryOp.maxPrecedence + 1) 0

/-- An operand with its unary operators, where that many nesting levels are left. -/
def operand : Nat → Parser (Option Kind)
  | 0 => tooDeep
  | levels + 1 => do
    if (UnaryOp.ofKind? (← peekKind .expr)).isSome then
      node .unaryExpr do
        advance .expr
        let _ ← operand levels
      return some .unaryExpr
    else primaryExpr (exprOf (operand levels))

/-- An expression, where that many nesting levels are left. -/
def expr (levels : Nat) : Parser (Option Kind) := exprOf (operand levels)

end Parser

end DialogueScript
