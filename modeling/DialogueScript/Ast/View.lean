import DialogueScript.Kind

/-!
The names under which the meaning of a node can be asked for. Every kind of node has a name of its
own, and headers, statements and expressions also have the name of their family.
-/

namespace DialogueScript

namespace Kind

def isHeaderKind : Kind → Bool
  | .titleHeader | .whenHeader | .header => true
  | _ => false

def isStmtKind : Kind → Bool
  | .lineStmt | .shortcutOptionGroup | .lineGroup | .ifStmt | .onceStmt | .setStmt | .callStmt
  | .declareStmt | .enumStmt | .jumpStmt | .returnStmt | .commandStmt | .block => true
  | _ => false

def isExprKind : Kind → Bool
  | .parenExpr | .unaryExpr | .binaryExpr | .callExpr | .memberExpr | .numberExpr | .stringExpr
  | .variableExpr | .identExpr | .boolExpr | .nullExpr => true
  | _ => false

/-- A kind's own name as a node. -/
def viewName? : Kind → Option String
  | .sourceFile => some "SourceFile"
  | .fileHashtag => some "FileHashtag"
  | .dialogueNode => some "DialogueNode"
  | .titleHeader => some "TitleHeader"
  | .whenHeader => some "WhenHeader"
  | .whenCondition => some "WhenCondition"
  | .header => some "GenericHeader"
  | .body => some "Body"
  | .block => some "Block"
  | .lineStmt => some "LineStmt"
  | .lineText => some "LineText"
  | .interpolation => some "Interpolation"
  | .lineCondition => some "LineCondition"
  | .hashtag => some "Hashtag"
  | .shortcutOptionGroup => some "ShortcutOptionGroup"
  | .shortcutOption => some "ShortcutOption"
  | .lineGroup => some "LineGroup"
  | .lineGroupItem => some "LineGroupItem"
  | .ifStmt => some "IfStmt"
  | .ifClause => some "IfClause"
  | .elseIfClause => some "ElseIfClause"
  | .elseClause => some "ElseClause"
  | .onceStmt => some "OnceStmt"
  | .onceClause => some "OnceClause"
  | .onceElseClause => some "OnceElseClause"
  | .setStmt => some "SetStmt"
  | .callStmt => some "CallStmt"
  | .declareStmt => some "DeclareStmt"
  | .typeClause => some "TypeAnnotation"
  | .enumStmt => some "EnumStmt"
  | .enumCase => some "EnumCase"
  | .jumpStmt => some "JumpStmt"
  | .returnStmt => some "ReturnStmt"
  | .commandStmt => some "CommandStmt"
  | .name => some "Name"
  | .parenExpr => some "ParenExpr"
  | .unaryExpr => some "UnaryExpr"
  | .binaryExpr => some "BinaryExpr"
  | .callExpr => some "CallExpr"
  | .argList => some "ArgList"
  | .memberExpr => some "MemberExpr"
  | .numberExpr => some "NumberExpr"
  | .stringExpr => some "StringExpr"
  | .variableExpr => some "VariableExpr"
  | .identExpr => some "IdentExpr"
  | .boolExpr => some "BoolExpr"
  | .nullExpr => some "NullExpr"
  | _ => none

/-- All names of a kind, its own first. -/
def viewNames (k : Kind) : List String :=
  k.viewName?.toList ++ (if k.isHeaderKind then ["Header"] else []) ++
    (if k.isStmtKind then ["Stmt"] else []) ++ (if k.isExprKind then ["Expr"] else [])

end Kind

end DialogueScript
