import DialogueScript.Ast.Script
import DialogueScript.Proofs.Grammar.Statement
import DialogueScript.Proofs.Scanner.LineSpelling

/-!
Statements as they are written: one construct to a line, the block of an item one step deeper than
its arrow, and the clauses of a chain as deep as the chain.
-/

namespace DialogueScript

/-- A statement as it is written. Items and clauses are pairs of what stands on their own line and
of the statements that belong to them; an item without statements has no block. -/
inductive Passage where
  | line (text : Text)
  | group (lineGroup : Bool) (items : List (Text × List Passage))
  | ifChain (condition : Text) (body : List Passage) (elseIfs : List (Text × List Passage))
      (otherwise : Option (List Passage))
  | onceChain (condition : Option Text) (body : List Passage) (otherwise : Option (List Passage))
  | set (name digits : Text)
  | jump (name : Text)
  | ret

/-- A line in `j` blocks, with its line break. -/
def lineAt (j : Nat) (t : Text) : Text := pad j ++ (t ++ ['\n'])

/-- A variable behind a blank. -/
def spacedVariable (name : Text) : Text := ' ' :: '$' :: name

/-- The line of a command, with what follows its keyword. -/
def commandLine (j : Nat) (keyword : Kind) (rest : Text) : Text :=
  lineAt j ("<<".toList ++ (keyword.chars ++ (rest ++ ">>".toList)))

/-- What follows the keyword of a `once`. -/
def onceCondition : Option Text → Text
  | none => []
  | some name => " if".toList ++ spacedVariable name

namespace Passage

mutual

/-- The lines of a statement in `j` blocks. -/
def text (j : Nat) : Passage → Text
  | line t => lineAt j t
  | group lineGroup items => itemsText lineGroup j items
  | ifChain condition body elseIfs otherwise =>
    commandLine j .ifKw (spacedVariable condition) ++ (textAll j body ++ (clausesText j elseIfs ++
      (elseText j otherwise ++ commandLine j .endifKw [])))
  | onceChain condition body otherwise =>
    commandLine j .onceKw (onceCondition condition) ++ (textAll j body ++
      (elseText j otherwise ++ commandLine j .endonceKw []))
  | set name digits => commandLine j .setKw (spacedVariable name ++ (" = ".toList ++ digits))
  | jump name => commandLine j .jumpKw (' ' :: name)
  | ret => commandLine j .returnKw []

def textAll (j : Nat) : List Passage → Text
  | [] => []
  | x :: xs => text j x ++ textAll j xs

def itemsText (lineGroup : Bool) (j : Nat) : List (Text × List Passage) → Text
  | [] => []
  | (t, block) :: more =>
    lineAt j ((Parser.arrowOf lineGroup).chars ++ ' ' :: t) ++
      (textAll (j + 1) block ++ itemsText lineGroup j more)

def clausesText (j : Nat) : List (Text × List Passage) → Text
  | [] => []
  | (condition, body) :: more =>
    commandLine j .elseifKw (spacedVariable condition) ++ (textAll j body ++ clausesText j more)

def elseText (j : Nat) : Option (List Passage) → Text
  | none => []
  | some body => commandLine j .elseKw [] ++ textAll j body

end

/-! ### Nesting -/

mutual

/-- How deeply statements are nested in a statement. -/
def depth : Passage → Nat
  | group _ items => depthPairs items + 1
  | ifChain _ body elseIfs otherwise =>
    max (depthAll body) (max (depthPairs elseIfs) (depthElse otherwise)) + 1
  | onceChain _ body otherwise => max (depthAll body) (depthElse otherwise) + 1
  | _ => 0

def depthAll : List Passage → Nat
  | [] => 0
  | x :: xs => max (depth x) (depthAll xs)

def depthPairs : List (Text × List Passage) → Nat
  | [] => 0
  | (_, body) :: more => max (depthAll body) (depthPairs more)

def depthElse : Option (List Passage) → Nat
  | none => 0
  | some body => depthAll body

end

/-! ### Well-formedness -/

/-- Which kind of group a statement is, if it is one. -/
def group? : Passage → Option Bool
  | group lineGroup _ => some lineGroup
  | _ => none

/-- Two statements that cannot follow each other: the second would go on with the group of the
first. -/
def Merges (x y : Passage) : Prop := x.group?.isSome ∧ x.group? = y.group?

mutual

/-- A statement whose texts can be written, with no two groups that would be taken for one. -/
def WellFormed : Passage → Prop
  | line t => Lexeme.PlainLine t
  | group _ items => items ≠ [] ∧ WellFormedItems items
  | ifChain condition body elseIfs otherwise =>
    isWord condition = true ∧ WellFormedAll body ∧ WellFormedClauses elseIfs ∧
      WellFormedElse otherwise
  | onceChain condition body otherwise =>
    condition.all isWord = true ∧ WellFormedAll body ∧ WellFormedElse otherwise
  | set name digits => isWord name = true ∧ isDigits digits = true
  | jump name => isWord name = true
  | ret => True

def WellFormedAll : List Passage → Prop
  | [] => True
  | x :: xs => WellFormed x ∧ (∀ y ∈ xs.head?, ¬ Merges x y) ∧ WellFormedAll xs

def WellFormedItems : List (Text × List Passage) → Prop
  | [] => True
  | (t, block) :: more => Lexeme.PlainText t ∧ WellFormedAll block ∧ WellFormedItems more

def WellFormedClauses : List (Text × List Passage) → Prop
  | [] => True
  | (condition, body) :: more => isWord condition = true ∧ WellFormedAll body ∧
      WellFormedClauses more

def WellFormedElse : Option (List Passage) → Prop
  | none => True
  | some body => WellFormedAll body

end

/-! ### Meaning -/

/-- A line that is plain text. -/
def plainLine (t : Text) : Line := ⟨some [.text t], none, []⟩

/-- A variable as an expression. -/
def variableValue (name : Text) : Expr := .var (some name)

mutual

/-- The statement that is written. -/
def value : Passage → Stmt
  | line t => .line (plainLine t)
  | group lineGroup items =>
    if lineGroup then .lineGroup (itemValues items) false else .options (itemValues items) false
  | ifChain condition body elseIfs otherwise =>
    .ifChain (some ⟨some (variableValue condition), values body⟩) (clauseValues elseIfs)
      (elseValue otherwise)
  | onceChain condition body otherwise =>
    .onceChain (some ⟨condition.map variableValue, values body⟩) (elseValue otherwise)
  | set name digits =>
    .set (some name) (some .assign) (some (.number (some ⟨Decimal.digitsValue digits, 0⟩)))
  | jump name => .jump false (some (.name name))
  | ret => .ret

def values : List Passage → List Stmt
  | [] => []
  | x :: xs => value x :: values xs

def itemValues : List (Text × List Passage) → List (Item Stmt)
  | [] => []
  | (t, block) :: more => ⟨some (plainLine t), blockValue block⟩ :: itemValues more

def blockValue : List Passage → Option (List Stmt)
  | [] => none
  | x :: xs => some (value x :: values xs)

def clauseValues : List (Text × List Passage) → List (Clause Stmt)
  | [] => []
  | (condition, body) :: more => ⟨some (variableValue condition), values body⟩ :: clauseValues more

def elseValue : Option (List Passage) → Option (List Stmt)
  | none => none
  | some body => some (values body)

end

end Passage

end DialogueScript
