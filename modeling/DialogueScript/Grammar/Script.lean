import DialogueScript.Grammar.Statement

/-!
A whole script: file hashtags and nodes, each node with its headers and its body. Every child of the
root starts at a checkpoint.
-/

namespace DialogueScript

namespace Parser

/-! ### Headers -/

/-- A title behind its keyword. -/
def titleRest : Parser Unit := do
  let _ ← expect .header .colon "expected `:`"
  let _ ← expect .headerValue .restOfLine "expected node title"
  endOfLine .header

def titleHeader : Parser Unit :=
  node .titleHeader do
    advance .header
    titleRest

/-- The condition of a node, by the token that stands next. -/
def conditionAt : Kind → Parser Unit
  | .alwaysKw => advance .whenHeader
  | .onceKw => do
    advance .whenHeader
    if ← eat .whenHeader .ifKw then
      let _ ← expr maxDepth
  | _ => do let _ ← expr maxDepth

def whenCondition : Parser Unit :=
  node .whenCondition do conditionAt (← peekKind .whenHeader)

def whenHeader : Parser Unit :=
  node .whenHeader do
    advance .header
    let _ ← expect .header .colon "expected `:`"
    whenCondition
    endOfLine .header

/-- Any other header behind its name. -/
def headerRest : Parser Unit := do
  if ← expect .header .colon "expected `:`" then
    let _ ← eat .headerValue .restOfLine
    endOfLine .header
  else
    skipLine .text
    eatNewline

def genericHeader : Parser Unit :=
  node .header do
    advance .header
    headerRest

/-- A header, by the token that stands next. -/
def headerAt (titles : Nat) : Kind → Parser (ForInStep Nat)
  | .titleKw => do
    if 0 < titles then
      errorOf .header .duplicateTitle "a node can only have one `title` header"
    titleHeader
    return .yield (titles + 1)
  | .whenKw => do
    whenHeader
    return .yield titles
  | .ident => do
    genericHeader
    return .yield titles
  | .bodyStart | .bodyEnd | .eof => return .done titles
  | _ => do
    errorLine .header "expected a header or `---`"
    eatNewline
    return .yield titles

def headerStep (titles : Nat) : Parser (ForInStep Nat) := do headerAt titles (← peekKind .header)

/-- The headers of a node up to its body. Answers how many titles there are. -/
def headers : Parser Nat := loop headerStep 0

/-! ### Nodes -/

/-- A step over the statements of a body. The end of a block that was not opened here is passed
over. -/
def bodyStep : Parser (ForInStep Unit) := do
  statementList (statement maxDepth) .empty
  if ← isCancelled then return .done ()
  if !(← isAt .statement .dedent) then return .done ()
  node .error do
    error .statement "unexpected end of block"
    advance .statement
  return .yield ()

def bodyStatements : Parser Unit := do
  let _ ← loop (fun _ => bodyStep) ()

/-- The `---` and the rest of its line. -/
def bodyHead : Parser Unit := do
  advance .header
  endOfLine .text

/-- The `===` and the rest of its line, or the error for a body without it. Answers whether it was
found. -/
def bodyClose : Parser Bool := do
  if ← eat .statement .bodyEnd then
    endOfLine .header
    return true
  else
    errorOf .statement .missingEndMarker "expected `===`"
    return false

/-- A body: `---`, statements and `===`. Answers whether the end was found. -/
def body : Parser Bool :=
  node .body do
    bodyHead
    bodyStatements
    bodyClose

/-- What is wrong with a node that has that many titles. -/
def titleProblem (titles : Nat) : Option (GrammarError × String) :=
  if titles = 0 then some (.missingTitle, "expected a `title` header") else none

/-- The headers of a node, of which one must be a title. -/
def nodeHeaders : Parser Nat := do
  let first ← peekRange .header
  let titles ← headers
  reportAt first (titleProblem titles)
  return titles

/-- What follows the headers of a node. Answers with the kind of the node. -/
def nodeTail : Parser Kind := do
  if ← isAt .header .bodyStart then
    if ← body then return .dialogueNode else return .error
  else
    error .header "expected `---`"
    return .error

/-- A node. One that has no body, or whose body has no end, is an error. -/
def dialogueNode : Parser Unit := do
  let _ ← nodeOf do
    let _ ← nodeHeaders
    nodeTail

/-! ### Files -/

/-- The tokens that a node can start with. -/
def nodeFirst : KindSet := .ofList [.titleKw, .whenKw, .ident, .bodyStart]

def fileHashtag : Parser Unit :=
  node .fileHashtag do
    advance .header
    let _ ← expect .hashtag .hashtagText "expected hashtag text"
    endOfLine .header

/-- A line that belongs to no node. -/
def strayLine : Parser Unit :=
  node .error do
    error .header "expected a node header"
    skipLine .header
    eatNewline

/-- A child of the root, by the token that stands next. -/
def child (kind : Kind) : Parser Unit :=
  if kind = .hash then fileHashtag
  else if nodeFirst.contains kind then dialogueNode
  else strayLine

/-- What a step over the children of the root does at a token. -/
def itemAt (nodes : Nat) (kind : Kind) : Parser (ForInStep Nat) := do
  if kind = .eof then return .done nodes
  child kind
  return .yield (if nodeFirst.contains kind then nodes + 1 else nodes)

/-- A step over the children of the root, each of which starts at a checkpoint. -/
def itemStep (nodes : Nat) : Parser (ForInStep Nat) := do
  checkpoint
  if ← poll then return .done nodes
  itemAt nodes (← peekKind .header)

/-- The children of the root before the end of the file. Answers how many nodes were read. -/
def items : Parser Nat := loop itemStep 0

/-- What follows the children of the root. What is left after cancelling is one error. -/
def scriptTail (nodes : Nat) : Parser Unit := do
  if ← isCancelled then node .error advanceRest
  else if nodes = 0 then
    let here ← peekRange .header
    errorAt (.empty here.start) .emptyFile "expected at least one node"
  bump .header

def script : Parser Unit := do scriptTail (← items)

/-- The node at the current position, if one starts here. Answers whether one does. -/
def item : Parser Bool := do
  if ← isAtAny .header nodeFirst then
    dialogueNode
    return true
  else return false

end Parser

end DialogueScript
