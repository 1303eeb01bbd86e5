import DialogueScript.Grammar.Line

/-!
Commands that stand on a line of their own. What is known of a command when its rule is chosen is
the keyword after its `<<`.
-/

namespace DialogueScript

namespace Parser

/-- Takes `<<` and the keyword after it. -/
def commandStart : Parser Unit := do
  advance .statement
  advance .command

/-- Takes `>>` and the line break. -/
def commandClose : Parser Unit := do
  commandEnd .command
  endOfLine .text

def commandVariable : Parser Unit := do
  if ← isAt .expr .dollar then variableExpr
  else errorRecover .expr "expected a variable" nameRecovery

/-! ### Values -/

/-- The operator of an assignment and what is assigned. -/
def setValue (levels : Nat) : Parser Unit := do
  if (AssignOp.ofKind? (← peekKind .command)).isSome then advance .command
  else error .command "expected `=`, `to` or a compound assignment"
  let _ ← expr levels
  commandClose

def setCommand (levels : Nat) : Parser Unit :=
  node .setStmt do
    commandStart
    commandVariable
    setValue levels

/-- What is wrong with an expression that is no call. -/
def callProblem : Option Kind → Option (GrammarError × String)
  | none | some .callExpr => none
  | some _ => some (.unexpectedToken, "expected a function call")

/-- What is called. -/
def callTarget (levels : Nat) : Parser (Option Kind) := do
  let range ← peekRange .expr
  let kind ← expr levels
  reportAt range (callProblem kind)
  return kind

def callCommand (levels : Nat) : Parser Unit :=
  node .callStmt do
    commandStart
    let _ ← callTarget levels
    commandClose

/-- Takes the `=` or `to` in front of a value, if one is there. -/
def eatEquals : Parser Bool := do
  if ← eat .command .eq then return true
  else eat .command .toKw

/-- The type of a declared variable. -/
def typeClause : Parser Unit :=
  node .typeClause do
    advance .command
    name nameRecovery

/-- What a declared variable starts with, and maybe its type. -/
def declareValue (levels : Nat) : Parser Unit := do
  if !(← eatEquals) then error .command "expected `=` or `to`"
  let _ ← expr levels
  if ← isAt .command .asKw then typeClause
  commandClose

def declareCommand (levels : Nat) : Parser Unit :=
  node .declareStmt do
    commandStart
    commandVariable
    declareValue levels

/-! ### Jumps -/

/-- Where a jump leads. -/
def jumpTarget (levels : Nat) : Parser Unit := do
  if ← isAt .name .leftBrace then interpolation levels .name
  else name nameRecovery

def jumpCommand (levels : Nat) : Parser Unit :=
  node .jumpStmt do
    commandStart
    jumpTarget levels
    commandClose

def returnCommand : Parser Unit :=
  node .returnStmt do
    commandStart
    commandClose

/-! ### Free-form commands -/

/-- A step over the text of a free-form command. -/
def freeStep (levels : Nat) (found : Bool) : Parser (ForInStep Bool) := do
  match ← peekKind .commandText with
  | .commandText =>
    advance .commandText
    return .yield true
  | .leftBrace =>
    interpolation levels .commandText
    return .yield true
  | _ => return .done found

/-- The text of a free-form command. There must be some. -/
def freeText (levels : Nat) : Parser Unit := do
  let found ← loop (freeStep levels) false
  if !found then error .commandText "expected a command"

/-- What follows the text of a free-form command. -/
def freeRest : Parser Unit := do
  if !(← eat .commandText .commandEnd) then error .commandText "expected `>>`"
  hashtags
  endOfLine .text

/-- Any other command, kept as text with interpolations. -/
def freeCommand (levels : Nat) : Parser Unit :=
  node .commandStmt do
    advance .statement
    freeText levels
    freeRest

/-! ### Ends -/

/-- Closes a construct that ends with the command `keyword`. Answers with the kind of the construct,
or with an error if its end is missing. -/
def closeWith (keyword kind : Kind) (message : String) : Parser Kind := do
  if (← peekCommand .statement) = some keyword then
    commandStart
    commandClose
    return kind
  else
    errorOf .statement .missingEndMarker message
    return .error

/-- A clause that belongs to no open construct. -/
def strayClause (keyword : Kind) : Parser Unit := do
  let message := match keyword with
    | .elseifKw | .elseKw | .endifKw => "this clause has no open `<<if>>` to belong to"
    | .endonceKw => "`<<endonce>>` without an open `<<once>>`"
    | _ => "enum cases are only allowed inside `<<enum>>`"
  error .statement message
  node .error do
    advance .statement
    advanceLine
  eatNewline

/-! ### Enums -/

def enumCase (levels : Nat) : Parser Unit :=
  node .enumCase do
    commandStart
    name nameRecovery
    if ← eatEquals then
      let _ ← expr levels
    commandClose

/-- A case where its keyword stands, and something else elsewhere. -/
def caseOr (levels cases : Nat) (other : Parser (ForInStep Nat)) : Parser (ForInStep Nat) := do
  if (← peekCommand .statement) = some .caseKw then
    enumCase levels
    return .yield (cases + 1)
  else other

/-- A line in a block of cases. -/
def caseLine (levels cases : Nat) : Parser (ForInStep Nat) :=
  caseOr levels cases do
    errorLine .statement "only `<<case>>` lines are allowed in an enum"
    eatNewline
    return .yield cases

/-- A step of a block of cases, by the token that stands next, where `inner` is the rule for a block
inside it. -/
def caseStepAt (levels : Nat) (inner : Parser Nat) (cases : Nat) : Kind → Parser (ForInStep Nat)
  | .eof | .bodyEnd | .titleKw | .dedent => return .done cases
  | .indent => return .yield (cases + (← inner))
  | _ => caseLine levels cases

def caseStep (levels : Nat) (inner : Parser Nat) (cases : Nat) : Parser (ForInStep Nat) := do
  caseStepAt levels inner cases (← peekKind .statement)

/-- What a block of cases takes. -/
def caseRun (levels : Nat) (inner : Parser Nat) : Parser Nat := do
  advance .statement
  let cases ← loop (caseStep levels inner) 0
  let _ ← expect .statement .dedent "expected the end of the indented block"
  return cases

/-- An indented run of cases, which can hold further such runs. Answers how many cases there are.
The first number bounds how deep the runs can nest. -/
def caseBlock (levels : Nat) : Nat → Parser Nat
  | 0 => return 0
  | nesting + 1 => node .block (caseRun levels (caseBlock levels nesting))

/-- A block of cases that can nest as deep as the text allows. -/
def casesHere (levels : Nat) : Parser Nat := do caseBlock levels (← get).scanner.rest.length

/-- A step of an enum, by the token that stands next. -/
def enumStepAt (levels cases : Nat) : Kind → Parser (ForInStep Nat)
  | .indent => return .yield (cases + (← casesHere levels))
  | .commandStart => caseOr levels cases (return .done cases)
  | _ => return .done cases

def enumStep (levels cases : Nat) : Parser (ForInStep Nat) := do
  if ← poll then return .done cases
  enumStepAt levels cases (← peekKind .statement)

/-- The name of an enum and the rest of its first line. -/
def enumName : Parser Unit := do
  name nameRecovery
  commandClose

/-- The first line of an enum. -/
def enumHead : Parser Unit := do
  commandStart
  enumName

/-- The cases of an enum. There must be one. -/
def enumCases (levels : Nat) : Parser Unit := do
  let cases ← loop (enumStep levels) 0
  if cases = 0 then error .statement "expected `<<case`"

/-- What follows the first line of an enum. -/
def enumTail (levels : Nat) : Parser Kind := do
  enumCases levels
  closeWith .endenumKw .enumStmt "expected `<<endenum>>`"

def enumCommand (levels : Nat) : Parser Unit := do
  let _ ← nodeOf do
    enumHead
    enumTail levels

end Parser

end DialogueScript
