import DialogueScript.Grammar.Command

/-!
Statements of a body. Groups take every item they can before they are closed. A clause belongs to
the innermost construct that is still open: a nested construct ends its own statements at its own
keywords first. Each statement takes one of the nesting levels that are left: at none, its line is
passed over.
-/

namespace DialogueScript

namespace Parser

/-- The command keywords that continue or close a construct and start no statement. -/
def clauseKeywords : KindSet :=
  .ofList [.elseifKw, .elseKw, .endifKw, .endonceKw, .caseKw, .endenumKw]

def ifTerminators : KindSet := .ofList [.elseifKw, .elseKw, .endifKw]

def onceTerminators : KindSet := .ofList [.elseKw, .endonceKw]

/-- Whether a run of statements ends here: the end of a block or body, or a command whose keyword is
one of `terminators`. -/
def endsStatements (terminators : KindSet) : Parser Bool := do
  match ← peekKind .statement with
  | .eof | .bodyEnd | .titleKw | .dedent => return true
  | .commandStart => return (← peekCommand .statement).any terminators.contains
  | _ => return false

/-- What is done about a statement that took nothing. -/
def nothingTaken : Parser (ForInStep Unit) := do
  if !(← isAt .statement .eof) then
    error .statement "expected a statement"
    node .error (advance .statement)
  return .yield ()

/-- A step of a run of statements behind the check for its end. -/
def statementStep (terminators : KindSet) (statement : KindSet → Parser Unit) :
    Parser (ForInStep Unit) :=
  ifStuck (statement terminators) nothingTaken (pure (.yield ()))

/-- A step of a run of statements. -/
def listStep (terminators : KindSet) (statement : KindSet → Parser Unit) :
    Parser (ForInStep Unit) := do
  if ← poll then return .done ()
  if ← endsStatements terminators then return .done ()
  statementStep terminators statement

/-- A run of statements over a rule for each. -/
def statementList (statement : KindSet → Parser Unit) (terminators : KindSet) : Parser Unit := do
  let _ ← loop (fun _ => listStep terminators statement) ()

/-! ### Blocks and groups -/

/-- An indented run of statements. -/
def block (statement : KindSet → Parser Unit) : Parser Unit :=
  node .block do
    advance .statement
    statementList statement .empty
    let _ ← expect .statement .dedent "expected the end of the indented block"

/-- The first line of an item of a group. -/
def itemHead (levels : Nat) (mode : Mode) : Parser Unit := do
  advance mode
  line levels .text

/-- The block of an item, if one follows its line. Answers whether one does. -/
def itemBlock (statement : KindSet → Parser Unit) : Parser Bool := do
  let hadBlock ← isAt .statement .indent
  if hadBlock then block statement
  return hadBlock

/-- An item of a group: its arrow, its line, and a block if one follows. Answers whether one
does. -/
def groupItem (levels : Nat) (statement : KindSet → Parser Unit) (mode : Mode) (kind : Kind) :
    Parser Bool :=
  node kind do
    itemHead levels mode
    itemBlock statement

/-- The token that starts an item of a group. -/
def arrowOf (lineGroup : Bool) : Kind := if lineGroup then .lineGroupArrow else .shortcutArrow

/-- What follows an item of a group, read in the mode that depends on the item. -/
def groupTail (lineGroup : Bool) (mode : Mode) : Parser (ForInStep Mode) := do
  if ← eat mode .blankLine then return .done mode
  if ← poll then return .done mode
  if ← isAt mode (arrowOf lineGroup) then return .yield mode
  else return .done mode

/-- A step of a group. -/
def groupStep (statement : KindSet → Parser Unit) (levels : Nat) (lineGroup : Bool) (mode : Mode) :
    Parser (ForInStep Mode) := do
  let hadBlock ← groupItem levels statement mode
    (if lineGroup then .lineGroupItem else .shortcutOption)
  let config := (← get).scanner.config
  groupTail lineGroup (if config.breaksAfter hadBlock lineGroup then .afterOption else .statement)

/-- Options or line-group items in a row. -/
def group (levels : Nat) (statement : KindSet → Parser Unit) (lineGroup : Bool) : Parser Unit :=
  node (if lineGroup then .lineGroup else .shortcutOptionGroup) do
    let _ ← loop (groupStep statement levels lineGroup) .statement

/-! ### Chains -/

/-- The line break after a clause's command, and the clause's statements. -/
def clauseBody (statement : KindSet → Parser Unit) (terminators : KindSet) : Parser Unit := do
  endOfLine .text
  statementList statement terminators

/-- The command that starts a clause, with its condition, if it has one. -/
def clauseCommand (levels : Nat) (conditional : Bool) : Parser Unit := do
  commandStart
  if conditional then
    let _ ← expr levels
  commandEnd .command

def clause (levels : Nat) (statement : KindSet → Parser Unit) (kind : Kind) (conditional : Bool)
    (terminators : KindSet) : Parser Unit :=
  node kind do
    clauseCommand levels conditional
    clauseBody statement terminators

/-- The command that starts a `once` chain. -/
def onceCommand (levels : Nat) : Parser Unit := do
  commandStart
  if ← eat .command .ifKw then
    let _ ← expr levels
  commandEnd .command

/-- The first clause of a `once` chain. -/
def onceClause (levels : Nat) (statement : KindSet → Parser Unit) (terminators : KindSet) :
    Parser Unit :=
  node .onceClause do
    onceCommand levels
    clauseBody statement terminators

/-- Reports a clause that comes after the last one its chain can have. -/
def ambiguous (afterElse : Bool) (message : String) : Parser Unit := do
  if afterElse then errorOf .statement .unresolvedAmbiguity message

/-- A step over the further clauses of an `if` chain. -/
def ifStep (statement : KindSet → Parser Unit) (levels : Nat) (terminators : KindSet)
    (afterElse : Bool) : Parser (ForInStep Bool) := do
  match ← peekCommand .statement with
  | some .elseifKw =>
    ambiguous afterElse "`<<elseif>>` after `<<else>>` cannot be attached to a chain"
    clause levels statement .elseIfClause true terminators
    return .yield afterElse
  | some .elseKw =>
    ambiguous afterElse "a second `<<else>>` cannot be attached to a chain"
    clause levels statement .elseClause false terminators
    return .yield true
  | _ => return .done afterElse

def ifStatement (levels : Nat) (statement : KindSet → Parser Unit) (terminators : KindSet) :
    Parser Unit := do
  let inner := terminators.union ifTerminators
  let _ ← nodeOf do
    clause levels statement .ifClause true inner
    let _ ← loop (ifStep statement levels inner) false
    closeWith .endifKw .ifStmt "expected `<<endif>>`"

/-- A step over the further clauses of a `once` chain. -/
def onceStep (statement : KindSet → Parser Unit) (levels : Nat) (terminators : KindSet)
    (afterElse : Bool) : Parser (ForInStep Bool) := do
  if (← peekCommand .statement) = some .elseKw then
    ambiguous afterElse "a second `<<else>>` cannot be attached to a chain"
    clause levels statement .onceElseClause false terminators
    return .yield true
  else return .done afterElse

def onceStatement (levels : Nat) (statement : KindSet → Parser Unit) (terminators : KindSet) :
    Parser Unit := do
  let inner := terminators.union onceTerminators
  let _ ← nodeOf do
    onceClause levels statement inner
    let _ ← loop (onceStep statement levels inner) false
    closeWith .endonceKw .onceStmt "expected `<<endonce>>`"

/-! ### All statements -/

/-- The command that stands next. -/
def command (levels : Nat) (statement : KindSet → Parser Unit) (terminators : KindSet) :
    Parser Unit := do
  match ← peekCommand .statement with
  | some .ifKw => ifStatement levels statement terminators
  | some .onceKw => onceStatement levels statement terminators
  | some .setKw => setCommand levels
  | some .callKw => callCommand levels
  | some .declareKw => declareCommand levels
  | some .jumpKw | some .detourKw => jumpCommand levels
  | some .returnKw => returnCommand
  | some .enumKw => enumCommand levels
  | some keyword =>
    if clauseKeywords.contains keyword then strayClause keyword else freeCommand levels
  | none => freeCommand levels

/-- A statement, where that many nesting levels are left for what is inside it, which `statement`
reads. -/
def statementOf (levels : Nat) (statement : KindSet → Parser Unit) (terminators : KindSet) :
    Parser Unit := do
  match ← peekKind .statement with
  | .indent => block statement
  | .shortcutArrow => group levels statement false
  | .lineGroupArrow => group levels statement true
  | .commandStart => command levels statement terminators
  | .errorToken =>
    skipLine .statement
    eatNewline
  | _ => line levels .statement

/-- A statement, where that many nesting levels are left. -/
def statement : Nat → KindSet → Parser Unit
  | 0, _ => do
    errorLine .statement "statement is nested too deeply"
    eatNewline
  | levels + 1, terminators => statementOf levels (statement levels) terminators

end Parser

end DialogueScript
