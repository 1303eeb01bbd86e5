import DialogueScript.Ast.Expr

/-!
The meaning of a whole tree: the nodes of a script with their headers and statements.
-/

namespace DialogueScript

/-! ### Lines -/

/-- A piece of dialogue or command text. -/
inductive Part where
  | text (t : Text)
  | escape (t : Text)
  | interpolation (e : Option Expr)
deriving Repr

/-- The interpolation that a node stands for. -/
def Part.ofNode? (k : Kind) (cs : List Tree) : Option Part :=
  if k = .interpolation then some (.interpolation (Expr.among? cs)) else none

/-- The pieces of a line among some children. -/
def linePartsAmong (cs : List Tree) : List Part :=
  cs.filterMap fun
    | .leaf t =>
      if t.kind = .text then some (.text t.text)
      else if t.kind = .textEscape then some (.escape t.text)
      else none
    | .node k ds => Part.ofNode? k ds

/-- The pieces of a command among some children. An escape is none of them. -/
def commandPartsAmong (cs : List Tree) : List Part :=
  cs.filterMap fun
    | .leaf t => if t.kind = .commandText then some (.text t.text) else none
    | .node k ds => Part.ofNode? k ds

/-- The `<<if …>>` or `<<once …>>` after the text of a line. -/
structure LineCondition where
  once : Bool
  expr : Option Expr
deriving Repr

structure Line where
  parts : Option (List Part)
  condition : Option LineCondition
  hashtags : List (Option Text)
deriving Repr

/-- The texts of the hashtags of a kind among some children. -/
def hashtagsAmong (k : Kind) (cs : List Tree) : List (Option Text) :=
  (nodesAmong k cs).map (tokenTextAmong? .hashtagText)

def Line.ofChildren (cs : List Tree) : Line where
  parts := (nodeAmong? .lineText cs).map linePartsAmong
  condition := (nodeAmong? .lineCondition cs).map fun ds => ⟨hasToken .onceKw ds, Expr.among? ds⟩
  hashtags := hashtagsAmong .hashtag cs

/-! ### Statements -/

/-- An item of a group, over the type of its statements. -/
structure Item (σ : Type) where
  line : Option Line
  block : Option (List σ)
deriving Repr

structure Clause (σ : Type) where
  condition : Option Expr
  statements : List σ
deriving Repr

structure EnumCase where
  name : Option Text
  value : Option Expr
deriving Repr

inductive JumpTarget where
  | name (n : Text)
  | expr (e : Expr)
deriving Repr

inductive Stmt where
  | line (l : Line)
  /-- Options, and whether a blank line ends them. -/
  | options (items : List (Item Stmt)) (blank : Bool)
  | lineGroup (items : List (Item Stmt)) (blank : Bool)
  | ifChain (first : Option (Clause Stmt)) (elseIfs : List (Clause Stmt))
      (otherwise : Option (List Stmt))
  | onceChain (first : Option (Clause Stmt)) (otherwise : Option (List Stmt))
  | set (target : Option Text) (op : Option AssignOp) (value : Option Expr)
  | call (e : Option Expr)
  | declare (target : Option Text) (value : Option Expr) (type : Option Text)
  | enum (name : Option Text) (cases : List EnumCase)
  | jump (detour : Bool) (target : Option JumpTarget)
  | ret
  | command (parts : List Part) (hashtags : List (Option Text))
  | block (statements : List Stmt)
deriving Repr

/-- The name of the first variable among some children. -/
def variableAmong? (cs : List Tree) : Option Text :=
  (nodeAmong? .variableExpr cs).bind (tokenTextAmong? .ident)

/-- The call among some children. -/
def callAmong? (cs : List Tree) : Option Expr :=
  (Expr.ofAll cs).find? fun
    | .call .. => true
    | _ => false

def EnumCase.ofChildren (cs : List Tree) : EnumCase := ⟨nameAmong? cs, Expr.among? cs⟩

/-- The cases among some children and in the blocks among them. -/
def casesAmong (cs : List Tree) : List EnumCase :=
  cs.flatMap fun
    | .leaf _ => []
    | .node k ds =>
      if k = .block then (nodesAmong .enumCase ds).map EnumCase.ofChildren
      else if k = .enumCase then [EnumCase.ofChildren ds]
      else []

def jumpTarget? (cs : List Tree) : Option JumpTarget :=
  match nameAmong? cs with
  | some n => some (.name n)
  | none => ((nodeAmong? .interpolation cs).bind Expr.among?).map .expr

namespace Stmt

mutual

/-- The statement that a node stands for. -/
def ofTree? : Tree → Option Stmt
  | .leaf _ => none
  | .node k cs =>
    match k with
    | .lineStmt => some (.line (.ofChildren cs))
    | .shortcutOptionGroup =>
      some (.options (itemsOf .shortcutOption cs) (hasToken .blankLine cs))
    | .lineGroup => some (.lineGroup (itemsOf .lineGroupItem cs) (hasToken .blankLine cs))
    | .ifStmt =>
      some (.ifChain (clausesOf .ifClause cs).head? (clausesOf .elseIfClause cs)
        ((clausesOf .elseClause cs).head?.map (·.statements)))
    | .onceStmt =>
      some (.onceChain (clausesOf .onceClause cs).head?
        ((clausesOf .onceElseClause cs).head?.map (·.statements)))
    | .setStmt =>
      some (.set (variableAmong? cs) ((tokensAmong cs).findSome? fun t => AssignOp.ofKind? t.kind)
        (Expr.ofAll cs)[1]?)
    | .callStmt => some (.call (callAmong? cs))
    | .declareStmt =>
      some (.declare (variableAmong? cs) (Expr.ofAll cs)[1]?
        ((nodeAmong? .typeClause cs).bind nameAmong?))
    | .enumStmt => some (.enum (nameAmong? cs) (casesAmong cs))
    | .jumpStmt => some (.jump (hasToken .detourKw cs) (jumpTarget? cs))
    | .returnStmt => some .ret
    | .commandStmt => some (.command (commandPartsAmong cs) (hashtagsAmong .hashtag cs))
    | .block => some (.block (ofAll cs))
    | _ => none

/-- The statements among some children, in order. -/
def ofAll : List Tree → List Stmt
  | [] => []
  | c :: cs =>
    match ofTree? c with
    | some s => s :: ofAll cs
    | none => ofAll cs

/-- The items of a kind among some children. -/
def itemsOf (k : Kind) : List Tree → List (Item Stmt)
  | [] => []
  | .leaf _ :: cs => itemsOf k cs
  | .node j ds :: cs =>
    if j = k then ⟨(nodeAmong? .lineStmt ds).map Line.ofChildren, blockOf? ds⟩ :: itemsOf k cs
    else itemsOf k cs

/-- The statements of the first block among some children. -/
def blockOf? : List Tree → Option (List Stmt)
  | [] => none
  | .leaf _ :: cs => blockOf? cs
  | .node j ds :: cs => if j = .block then some (ofAll ds) else blockOf? cs

/-- The clauses of a kind among some children. -/
def clausesOf (k : Kind) : List Tree → List (Clause Stmt)
  | [] => []
  | .leaf _ :: cs => clausesOf k cs
  | .node j ds :: cs =>
    if j = k then ⟨Expr.among? ds, ofAll ds⟩ :: clausesOf k cs else clausesOf k cs

end

end Stmt

/-! ### Nodes -/

inductive WhenCondition where
  | always
  | once
  | onceIf (e : Option Expr)
  | expr (e : Expr)
deriving Repr

def WhenCondition.ofChildren? (cs : List Tree) : Option WhenCondition :=
  if hasToken .alwaysKw cs then some .always
  else if hasToken .onceKw cs then
    if hasToken .ifKw cs then some (.onceIf (Expr.among? cs)) else some .once
  else (Expr.among? cs).map .expr

inductive Header where
  | title (value : Option Text)
  | generic (key value : Option Text)
  | when (condition : Option WhenCondition)
deriving Repr

def Header.ofTree? : Tree → Option Header
  | .leaf _ => none
  | .node k cs =>
    match k with
    | .titleHeader => some (.title (tokenTextAmong? .restOfLine cs))
    | .whenHeader =>
      some (.when ((nodeAmong? .whenCondition cs).bind WhenCondition.ofChildren?))
    | .header => some (.generic (tokenTextAmong? .ident cs) (tokenTextAmong? .restOfLine cs))
    | _ => none

structure Body where
  /-- Whether the body has its end marker. -/
  closed : Bool
  statements : List Stmt
deriving Repr

structure DialogueNode where
  title : Option Text
  headers : List Header
  body : Option Body
deriving Repr

def DialogueNode.ofChildren (cs : List Tree) : DialogueNode where
  title := (nodeAmong? .titleHeader cs).bind (tokenTextAmong? .restOfLine)
  headers := cs.filterMap Header.ofTree?
  body := (nodeAmong? .body cs).map fun ds => ⟨hasToken .bodyEnd ds, Stmt.ofAll ds⟩

structure Script where
  fileHashtags : List (Option Text)
  nodes : List DialogueNode
deriving Repr

/-- The script that the root of a tree stands for. Damaged nodes are not part of it. -/
def Script.ofTree (t : Tree) : Script where
  fileHashtags := hashtagsAmong .fileHashtag t.children
  nodes := (nodesAmong .dialogueNode t.children).map DialogueNode.ofChildren

end DialogueScript
