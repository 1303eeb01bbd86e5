import DialogueScript.Ast.Double
import DialogueScript.Operator
import DialogueScript.Tree.Basic

/-!
The meaning of expression nodes. A tree that was read from damaged text can lack any part, so every
part is optional; what is in error nodes is not seen.
-/

namespace DialogueScript

/-! ### Parts of a node -/

/-- The first token of a kind among some children. -/
def tokenAmong? (k : Kind) : List Tree → Option Token
  | [] => none
  | .leaf t :: cs => if t.kind = k then some t else tokenAmong? k cs
  | .node .. :: cs => tokenAmong? k cs

def tokenTextAmong? (k : Kind) (cs : List Tree) : Option Text := (tokenAmong? k cs).map (·.text)

def hasToken (k : Kind) (cs : List Tree) : Bool := (tokenAmong? k cs).isSome

/-- The tokens among some children. -/
def tokensAmong (cs : List Tree) : List Token :=
  cs.filterMap fun
    | .leaf t => some t
    | .node .. => none

/-- For each node of a kind among some children, its own children. -/
def nodesAmong (k : Kind) (cs : List Tree) : List (List Tree) :=
  cs.filterMap fun
    | .leaf _ => none
    | .node j ds => if j = k then some ds else none

def nodeAmong? (k : Kind) (cs : List Tree) : Option (List Tree) := (nodesAmong k cs).head?

/-- The name in the first name node among some children. -/
def nameAmong? (cs : List Tree) : Option Text :=
  (nodeAmong? .name cs).map fun ds => (tokenTextAmong? .ident ds).getD []

/-! ### Literals -/

/-- A number without sign: `digits` divided by ten to the power of `places`. -/
structure Decimal where
  digits : Nat
  places : Nat
deriving DecidableEq, Repr

namespace Decimal

/-- The number that some digits spell. -/
def digitsValue (t : Text) : Nat := t.foldl (fun n c => 10 * n + (c.toNat - '0'.toNat)) 0

/-- Reads digits with an optional fraction. -/
def ofText? (t : Text) : Option Decimal :=
  let whole := t.takeWhile Char.isDigit
  let fraction := (t.drop whole.length).drop 1
  if t.all (fun c => c.isDigit || c = '.') && !whole.isEmpty && fraction.all Char.isDigit then
    some ⟨digitsValue (whole ++ fraction), fraction.length⟩
  else none

/-- The nearest number of double precision, as its bits. -/
def bits (d : Decimal) : UInt64 :=
  .ofNat (Double.next (d.digits * Nat.pow 2 Double.bitPlaces) (Nat.pow 10 d.places))

end Decimal

/-- Resolves the escapes of a string literal: a backslash stands for the character after it. -/
def unescape : Text → Text
  | [] => []
  | [c] => if c = '\\' then [] else [c]
  | c :: d :: cs => if c = '\\' then d :: unescape cs else c :: unescape (d :: cs)

/-- The contents of a string literal, without its quotes. -/
def stringValue? : Text → Option Text
  | '"' :: t => some (unescape (if t.getLast? = some '"' then t.dropLast else t))
  | _ => none

/-! ### Expressions -/

inductive Expr where
  | paren (inner : Option Expr)
  | unary (op : Option UnaryOp) (operand : Option Expr)
  | binary (op : Option BinaryOp) (spelling : Option Text) (lhs rhs : Option Expr)
  | call (name : Option Text) (args : List Expr)
  | member (type member : Option Text)
  | number (value : Option Decimal)
  | string (value : Option Text)
  | var (name : Option Text)
  | ident (name : Option Text)
  | bool (value : Option Bool)
  | null (token : Option Text)
deriving Repr

namespace Expr

/-- The first token among some children that spells a binary operator. -/
def operatorAmong? (cs : List Tree) : Option Token :=
  (tokensAmong cs).find? fun t => (BinaryOp.ofKind? t.kind).isSome

/-- The children before the first dot, if there is a dot. -/
def beforeDot (cs : List Tree) : List Tree :=
  if hasToken .dot cs then cs.takeWhile (·.kind ≠ .dot) else []

/-- The children after the first dot. -/
def afterDot (cs : List Tree) : List Tree := (cs.dropWhile (·.kind ≠ .dot)).drop 1

def boolAmong? (cs : List Tree) : Option Bool :=
  (tokensAmong cs).findSome? fun t =>
    match t.kind with
    | .trueKw => some true
    | .falseKw => some false
    | _ => none

mutual

/-- The expression that a node stands for. -/
def ofTree? : Tree → Option Expr
  | .leaf _ => none
  | .node k cs =>
    match k with
    | .parenExpr => some (.paren (ofAll cs).head?)
    | .unaryExpr =>
      some (.unary ((tokensAmong cs).findSome? fun t => UnaryOp.ofKind? t.kind) (ofAll cs).head?)
    | .binaryExpr =>
      let op := operatorAmong? cs
      let operands := ofAll cs
      some (.binary (op.bind fun t => BinaryOp.ofKind? t.kind) (op.map (·.text)) operands[0]?
        operands[1]?)
    | .callExpr => some (.call (nameAmong? cs) (argsOf cs))
    | .memberExpr => some (.member (nameAmong? (beforeDot cs)) (nameAmong? (afterDot cs)))
    | .numberExpr => some (.number ((tokenTextAmong? .number cs).bind Decimal.ofText?))
    | .stringExpr => some (.string ((tokenTextAmong? .string cs).bind stringValue?))
    | .variableExpr => some (.var (tokenTextAmong? .ident cs))
    | .identExpr => some (.ident (tokenTextAmong? .ident cs))
    | .boolExpr => some (.bool (boolAmong? cs))
    | .nullExpr => some (.null (tokenTextAmong? .nullKw cs))
    | _ => none

/-- The expressions among some children, in order. -/
def ofAll : List Tree → List Expr
  | [] => []
  | c :: cs =>
    match ofTree? c with
    | some e => e :: ofAll cs
    | none => ofAll cs

/-- The expressions in the first argument list among some children. -/
def argsOf : List Tree → List Expr
  | [] => []
  | .leaf _ :: cs => argsOf cs
  | .node k ds :: cs => if k = .argList then ofAll ds else argsOf cs

end

/-- The first expression among some children. -/
def among? (cs : List Tree) : Option Expr := (ofAll cs).head?

end Expr

end DialogueScript
