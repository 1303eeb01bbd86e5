/-!
The kinds of tokens and nodes of a script. Their order is part of the format: a kind's position
in the list is its number, tokens stand before nodes, and the keywords stand together.
-/

namespace DialogueScript

inductive Kind where
  -- Landmarks with fixed spellings.
  | bodyStart
  | bodyEnd
  | commandStart
  | commandEnd
  | leftBrace
  | rightBrace
  | leftParen
  | rightParen
  | shortcutArrow
  | lineGroupArrow
  | hash
  | colon
  | comma
  | dot
  | dollar
  -- Operators.
  | eq
  | eq2
  | neq
  | lt
  | gt
  | lteq
  | gteq
  | plus
  | minus
  | star
  | slash
  | percent
  | bang
  | amp2
  | pipe2
  | caret
  | plusEq
  | minusEq
  | starEq
  | slashEq
  | percentEq
  -- Words that are keywords only where the grammar asks for them.
  | titleKw
  | whenKw
  | alwaysKw
  | onceKw
  | ifKw
  | elseifKw
  | elseKw
  | endifKw
  | endonceKw
  | enumKw
  | endenumKw
  | caseKw
  | setKw
  | callKw
  | declareKw
  | jumpKw
  | detourKw
  | returnKw
  | asKw
  | toKw
  | notKw
  | andKw
  | orKw
  | xorKw
  | lteKw
  | gteKw
  | ltKw
  | gtKw
  | isKw
  | eqKw
  | neqKw
  | trueKw
  | falseKw
  | nullKw
  -- Literals and free text.
  | ident
  | number
  | string
  | text
  | textEscape
  | commandText
  | hashtagText
  | restOfLine
  -- Line structure.
  | newline
  | indent
  | dedent
  | blankLine
  -- Trivia.
  | whitespace
  | lineBreak
  | comment
  -- Anything else that a token can be.
  | errorToken
  | unknown
  | eof
  -- Nodes.
  | sourceFile
  | fileHashtag
  | dialogueNode
  | titleHeader
  | whenHeader
  | whenCondition
  | header
  | body
  | block
  | lineStmt
  | lineText
  | interpolation
  | lineCondition
  | hashtag
  | shortcutOptionGroup
  | shortcutOption
  | lineGroup
  | lineGroupItem
  | ifStmt
  | ifClause
  | elseIfClause
  | elseClause
  | onceStmt
  | onceClause
  | onceElseClause
  | setStmt
  | callStmt
  | declareStmt
  | typeClause
  | enumStmt
  | enumCase
  | jumpStmt
  | returnStmt
  | commandStmt
  | name
  -- Expressions.
  | parenExpr
  | unaryExpr
  | binaryExpr
  | callExpr
  | argList
  | memberExpr
  | numberExpr
  | stringExpr
  | variableExpr
  | identExpr
  | boolExpr
  | nullExpr
  -- Damage and placeholders.
  | error
  | tombstone
deriving DecidableEq, Repr, Inhabited

namespace Kind

/-- Every kind, in order. -/
def all : List Kind :=
  [.bodyStart, .bodyEnd, .commandStart, .commandEnd, .leftBrace, .rightBrace, .leftParen,
   .rightParen, .shortcutArrow, .lineGroupArrow, .hash, .colon, .comma, .dot, .dollar, .eq, .eq2,
   .neq, .lt, .gt, .lteq, .gteq, .plus, .minus, .star, .slash, .percent, .bang, .amp2, .pipe2,
   .caret, .plusEq, .minusEq, .starEq, .slashEq, .percentEq, .titleKw, .whenKw, .alwaysKw,
   .onceKw, .ifKw, .elseifKw, .elseKw, .endifKw, .endonceKw, .enumKw, .endenumKw, .caseKw,
   .setKw, .callKw, .declareKw, .jumpKw, .detourKw, .returnKw, .asKw, .toKw, .notKw, .andKw,
   .orKw, .xorKw, .lteKw, .gteKw, .ltKw, .gtKw, .isKw, .eqKw, .neqKw, .trueKw, .falseKw, .nullKw,
   .ident, .number, .string, .text, .textEscape, .commandText, .hashtagText, .restOfLine,
   .newline, .indent, .dedent, .blankLine, .whitespace, .lineBreak, .comment, .errorToken,
   .unknown, .eof, .sourceFile, .fileHashtag, .dialogueNode, .titleHeader, .whenHeader,
   .whenCondition, .header, .body, .block, .lineStmt, .lineText, .interpolation, .lineCondition,
   .hashtag, .shortcutOptionGroup, .shortcutOption, .lineGroup, .lineGroupItem, .ifStmt,
   .ifClause, .elseIfClause, .elseClause, .onceStmt, .onceClause, .onceElseClause, .setStmt,
   .callStmt, .declareStmt, .typeClause, .enumStmt, .enumCase, .jumpStmt, .returnStmt,
   .commandStmt, .name, .parenExpr, .unaryExpr, .binaryExpr, .callExpr, .argList, .memberExpr,
   .numberExpr, .stringExpr, .variableExpr, .identExpr, .boolExpr, .nullExpr, .error, .tombstone]

/-- The position of a kind in the order. -/
def id (k : Kind) : Nat := k.ctorIdx

def label : Kind → String
  | .bodyStart => "BODY_START"
  | .bodyEnd => "BODY_END"
  | .commandStart => "COMMAND_START"
  | .commandEnd => "COMMAND_END"
  | .leftBrace => "LEFT_BRACE"
  | .rightBrace => "RIGHT_BRACE"
  | .leftParen => "LEFT_PAREN"
  | .rightParen => "RIGHT_PAREN"
  | .shortcutArrow => "SHORTCUT_ARROW"
  | .lineGroupArrow => "LINE_GROUP_ARROW"
  | .hash => "HASH"
  | .colon => "COLON"
  | .comma => "COMMA"
  | .dot => "DOT"
  | .dollar => "DOLLAR"
  | .eq => "EQ"
  | .eq2 => "EQ2"
  | .neq => "NEQ"
  | .lt => "LT"
  | .gt => "GT"
  | .lteq => "LTEQ"
  | .gteq => "GTEQ"
  | .plus => "PLUS"
  | .minus => "MINUS"
  | .star => "STAR"
  | .slash => "SLASH"
  | .percent => "PERCENT"
  | .bang => "BANG"
  | .amp2 => "AMP2"
  | .pipe2 => "PIPE2"
  | .caret => "CARET"
  | .plusEq => "PLUS_EQ"
  | .minusEq => "MINUS_EQ"
  | .starEq => "STAR_EQ"
  | .slashEq => "SLASH_EQ"
  | .percentEq => "PERCENT_EQ"
  | .titleKw => "TITLE_KW"
  | .whenKw => "WHEN_KW"
  | .alwaysKw => "ALWAYS_KW"
  | .onceKw => "ONCE_KW"
  | .ifKw => "IF_KW"
  | .elseifKw => "ELSEIF_KW"
  | .elseKw => "ELSE_KW"
  | .endifKw => "ENDIF_KW"
  | .endonceKw => "ENDONCE_KW"
  | .enumKw => "ENUM_KW"
  | .endenumKw => "ENDENUM_KW"
  | .caseKw => "CASE_KW"
  | .setKw => "SET_KW"
  | .callKw => "CALL_KW"
  | .declareKw => "DECLARE_KW"
  | .jumpKw => "JUMP_KW"
  | .detourKw => "DETOUR_KW"
  | .returnKw => "RETURN_KW"
  | .asKw => "AS_KW"
  | .toKw => "TO_KW"
  | .notKw => "NOT_KW"
  | .andKw => "AND_KW"
  | .orKw => "OR_KW"
  | .xorKw => "XOR_KW"
  | .lteKw => "LTE_KW"
  | .gteKw => "GTE_KW"
  | .ltKw => "LT_KW"
  | .gtKw => "GT_KW"
  | .isKw => "IS_KW"
  | .eqKw => "EQ_KW"
  | .neqKw => "NEQ_KW"
  | .trueKw => "TRUE_KW"
  | .falseKw => "FALSE_KW"
  | .nullKw => "NULL_KW"
  | .ident => "IDENT"
  | .number => "NUMBER"
  | .string => "STRING"
  | .text => "TEXT"
  | .textEscape => "TEXT_ESCAPE"
  | .commandText => "COMMAND_TEXT"
  | .hashtagText => "HASHTAG_TEXT"
  | .restOfLine => "REST_OF_LINE"
  | .newline => "NEWLINE"
  | .indent => "INDENT"
  | .dedent => "DEDENT"
  | .blankLine => "BLANK_LINE"
  | .whitespace => "WHITESPACE"
  | .lineBreak => "LINE_BREAK"
  | .comment => "COMMENT"
  | .errorToken => "ERROR_TOKEN"
  | .unknown => "UNKNOWN"
  | .eof => "EOF"
  | .sourceFile => "SOURCE_FILE"
  | .fileHashtag => "FILE_HASHTAG"
  | .dialogueNode => "DIALOGUE_NODE"
  | .titleHeader => "TITLE_HEADER"
  | .whenHeader => "WHEN_HEADER"
  | .whenCondition => "WHEN_CONDITION"
  | .header => "HEADER"
  | .body => "BODY"
  | .block => "BLOCK"
  | .lineStmt => "LINE_STMT"
  | .lineText => "LINE_TEXT"
  | .interpolation => "INTERPOLATION"
  | .lineCondition => "LINE_CONDITION"
  | .hashtag => "HASHTAG"
  | .shortcutOptionGroup => "SHORTCUT_OPTION_GROUP"
  | .shortcutOption => "SHORTCUT_OPTION"
  | .lineGroup => "LINE_GROUP"
  | .lineGroupItem => "LINE_GROUP_ITEM"
  | .ifStmt => "IF_STMT"
  | .ifClause => "IF_CLAUSE"
  | .elseIfClause => "ELSE_IF_CLAUSE"
  | .elseClause => "ELSE_CLAUSE"
  | .onceStmt => "ONCE_STMT"
  | .onceClause => "ONCE_CLAUSE"
  | .onceElseClause => "ONCE_ELSE_CLAUSE"
  | .setStmt => "SET_STMT"
  | .callStmt => "CALL_STMT"
  | .declareStmt => "DECLARE_STMT"
  | .typeClause => "TYPE_ANNOTATION"
  | .enumStmt => "ENUM_STMT"
  | .enumCase => "ENUM_CASE"
  | .jumpStmt => "JUMP_STMT"
  | .returnStmt => "RETURN_STMT"
  | .commandStmt => "COMMAND_STMT"
  | .name => "NAME"
  | .parenExpr => "PAREN_EXPR"
  | .unaryExpr => "UNARY_EXPR"
  | .binaryExpr => "BINARY_EXPR"
  | .callExpr => "CALL_EXPR"
  | .argList => "ARG_LIST"
  | .memberExpr => "MEMBER_EXPR"
  | .numberExpr => "NUMBER_EXPR"
  | .stringExpr => "STRING_EXPR"
  | .variableExpr => "VARIABLE_EXPR"
  | .identExpr => "IDENT_EXPR"
  | .boolExpr => "BOOL_EXPR"
  | .nullExpr => "NULL_EXPR"
  | .error => "ERROR"
  | .tombstone => "TOMBSTONE"

/-- The fixed spelling of punctuation, operators and keywords. -/
def spelling? : Kind → Option String
  | .bodyStart => some "---"
  | .bodyEnd => some "==="
  | .commandStart => some "<<"
  | .commandEnd => some ">>"
  | .leftBrace => some "\x7b"
  | .rightBrace => some "\x7d"
  | .leftParen => some "("
  | .rightParen => some ")"
  | .shortcutArrow => some "->"
  | .lineGroupArrow => some "=>"
  | .hash => some "#"
  | .colon => some ":"
  | .comma => some ","
  | .dot => some "."
  | .dollar => some "$"
  | .eq => some "="
  | .eq2 => some "=="
  | .neq => some "!="
  | .lt => some "<"
  | .gt => some ">"
  | .lteq => some "<="
  | .gteq => some ">="
  | .plus => some "+"
  | .minus => some "-"
  | .star => some "*"
  | .slash => some "/"
  | .percent => some "%"
  | .bang => some "!"
  | .amp2 => some "&&"
  | .pipe2 => some "||"
  | .caret => some "^"
  | .plusEq => some "+="
  | .minusEq => some "-="
  | .starEq => some "*="
  | .slashEq => some "/="
  | .percentEq => some "%="
  | .titleKw => some "title"
  | .whenKw => some "when"
  | .alwaysKw => some "always"
  | .onceKw => some "once"
  | .ifKw => some "if"
  | .elseifKw => some "elseif"
  | .elseKw => some "else"
  | .endifKw => some "endif"
  | .endonceKw => some "endonce"
  | .enumKw => some "enum"
  | .endenumKw => some "endenum"
  | .caseKw => some "case"
  | .setKw => some "set"
  | .callKw => some "call"
  | .declareKw => some "declare"
  | .jumpKw => some "jump"
  | .detourKw => some "detour"
  | .returnKw => some "return"
  | .asKw => some "as"
  | .toKw => some "to"
  | .notKw => some "not"
  | .andKw => some "and"
  | .orKw => some "or"
  | .xorKw => some "xor"
  | .lteKw => some "lte"
  | .gteKw => some "gte"
  | .ltKw => some "lt"
  | .gtKw => some "gt"
  | .isKw => some "is"
  | .eqKw => some "eq"
  | .neqKw => some "neq"
  | .trueKw => some "true"
  | .falseKw => some "false"
  | .nullKw => some "null"
  | _ => none

/-- The fixed spelling as characters, empty for a kind that has none. -/
def chars (k : Kind) : List Char := (k.spelling?.getD "").toList

def isTrivia : Kind → Bool
  | .whitespace | .lineBreak | .comment => true
  | _ => false

def isKeyword (k : Kind) : Bool := titleKw.id ≤ k.id && k.id ≤ nullKw.id

/-- The tokens that indentation adds to a line. -/
def isStructural : Kind → Bool
  | .indent | .dedent | .blankLine => true
  | _ => false

def isToken (k : Kind) : Bool := k.id < sourceFile.id

/-- The kind with a given label. -/
def ofLabel? (s : String) : Option Kind := all.find? (·.label = s)

end Kind

end DialogueScript
