import DialogueScript.Ast.Double
import DialogueScript.Ast.Expr
import DialogueScript.Ast.Script
import DialogueScript.Ast.View
import DialogueScript.CommandLine.Args
import DialogueScript.CommandLine.Folder
import DialogueScript.CommandLine.Run
import DialogueScript.Config
import DialogueScript.Diagnostic
import DialogueScript.Grammar.Command
import DialogueScript.Grammar.Expression
import DialogueScript.Grammar.Line
import DialogueScript.Grammar.Parser
import DialogueScript.Grammar.Recovery
import DialogueScript.Grammar.Script
import DialogueScript.Grammar.Statement
import DialogueScript.IndentStack
import DialogueScript.Kind
import DialogueScript.KindSet
import DialogueScript.Main
import DialogueScript.Operator
import DialogueScript.Parse.Basic
import DialogueScript.Parse.Reparse
import DialogueScript.Proofs.Ast
import DialogueScript.Proofs.Expression.AnyDepth
import DialogueScript.Proofs.Expression.CutOff
import DialogueScript.Proofs.Expression.Double
import DialogueScript.Proofs.Expression.Interpolation
import DialogueScript.Proofs.Expression.Reading
import DialogueScript.Proofs.Expression.StringLiteral
import DialogueScript.Proofs.Expression.Term
import DialogueScript.Proofs.Expression.Tokens
import DialogueScript.Proofs.Expression.TooDeep
import DialogueScript.Proofs.Grammar.Adds
import DialogueScript.Proofs.Grammar.Anew
import DialogueScript.Proofs.Grammar.Closed
import DialogueScript.Proofs.Grammar.Command
import DialogueScript.Proofs.Grammar.CommandParts
import DialogueScript.Proofs.Grammar.Course
import DialogueScript.Proofs.Grammar.ExprTree
import DialogueScript.Proofs.Grammar.Expression
import DialogueScript.Proofs.Grammar.ExpressionParts
import DialogueScript.Proofs.Grammar.FirstLine
import DialogueScript.Proofs.Grammar.Flat
import DialogueScript.Proofs.Grammar.Forward
import DialogueScript.Proofs.Grammar.ForwardRules
import DialogueScript.Proofs.Grammar.Framed
import DialogueScript.Proofs.Grammar.Graded
import DialogueScript.Proofs.Grammar.Grouping
import DialogueScript.Proofs.Grammar.Honest
import DialogueScript.Proofs.Grammar.Inline
import DialogueScript.Proofs.Grammar.Items
import DialogueScript.Proofs.Grammar.Layered
import DialogueScript.Proofs.Grammar.LineCourse
import DialogueScript.Proofs.Grammar.LineEnd
import DialogueScript.Proofs.Grammar.LineParts
import DialogueScript.Proofs.Grammar.Loop
import DialogueScript.Proofs.Grammar.Making
import DialogueScript.Proofs.Grammar.Nesting
import DialogueScript.Proofs.Grammar.NodeCourse
import DialogueScript.Proofs.Grammar.NodeParts
import DialogueScript.Proofs.Grammar.Opened
import DialogueScript.Proofs.Grammar.OpenedRules
import DialogueScript.Proofs.Grammar.Outside
import DialogueScript.Proofs.Grammar.Pairing
import DialogueScript.Proofs.Grammar.Passes
import DialogueScript.Proofs.Grammar.Placed
import DialogueScript.Proofs.Grammar.Reads
import DialogueScript.Proofs.Grammar.Recorded
import DialogueScript.Proofs.Grammar.RecordedRules
import DialogueScript.Proofs.Grammar.Reported
import DialogueScript.Proofs.Grammar.Restyled
import DialogueScript.Proofs.Grammar.Rows
import DialogueScript.Proofs.Grammar.Rule
import DialogueScript.Proofs.Grammar.Script
import DialogueScript.Proofs.Grammar.Shape
import DialogueScript.Proofs.Grammar.Siblings
import DialogueScript.Proofs.Grammar.State
import DialogueScript.Proofs.Grammar.Statement
import DialogueScript.Proofs.Grammar.StatementCourse
import DialogueScript.Proofs.Grammar.StatementParts
import DialogueScript.Proofs.Grammar.Stopping
import DialogueScript.Proofs.Grammar.StoppingRules
import DialogueScript.Proofs.Grammar.Strides
import DialogueScript.Proofs.Grammar.TitleNode
import DialogueScript.Proofs.Grammar.Tolerant
import DialogueScript.Proofs.Grammar.Unclosed
import DialogueScript.Proofs.Grammar.Unwinding
import DialogueScript.Proofs.Grammar.UnwindingNodes
import DialogueScript.Proofs.Grammar.UnwindingRules
import DialogueScript.Proofs.Grammar.WholeLines
import DialogueScript.Proofs.IndentStack
import DialogueScript.Proofs.Parse.Accounts
import DialogueScript.Proofs.Parse.Adjoined
import DialogueScript.Proofs.Parse.Balance
import DialogueScript.Proofs.Parse.Cancelled
import DialogueScript.Proofs.Parse.Cases
import DialogueScript.Proofs.Parse.Checkpoints
import DialogueScript.Proofs.Parse.Children
import DialogueScript.Proofs.Parse.CommandKeywords
import DialogueScript.Proofs.Parse.Complete
import DialogueScript.Proofs.Parse.Diagnostics
import DialogueScript.Proofs.Parse.Edits
import DialogueScript.Proofs.Parse.ExprHeight
import DialogueScript.Proofs.Parse.Groups
import DialogueScript.Proofs.Parse.Indentation
import DialogueScript.Proofs.Parse.Isolation
import DialogueScript.Proofs.Parse.LexicalErrors
import DialogueScript.Proofs.Parse.LineEndings
import DialogueScript.Proofs.Parse.Lossless
import DialogueScript.Proofs.Parse.Nesting
import DialogueScript.Proofs.Parse.Orderly
import DialogueScript.Proofs.Parse.Progress
import DialogueScript.Proofs.Parse.ReadBack
import DialogueScript.Proofs.Parse.Reparse
import DialogueScript.Proofs.Parse.Replay
import DialogueScript.Proofs.Parse.Silent
import DialogueScript.Proofs.Parse.Splice
import DialogueScript.Proofs.Parse.Unclosed
import DialogueScript.Proofs.Parse.Unlimited
import DialogueScript.Proofs.Scanner.BlankLine
import DialogueScript.Proofs.Scanner.Blocks
import DialogueScript.Proofs.Scanner.Bump
import DialogueScript.Proofs.Scanner.Calls
import DialogueScript.Proofs.Scanner.Closing
import DialogueScript.Proofs.Scanner.Errors
import DialogueScript.Proofs.Scanner.Indent
import DialogueScript.Proofs.Scanner.Indentation
import DialogueScript.Proofs.Scanner.Invariant
import DialogueScript.Proofs.Scanner.Keywords
import DialogueScript.Proofs.Scanner.Layout
import DialogueScript.Proofs.Scanner.Lexeme
import DialogueScript.Proofs.Scanner.LineReader
import DialogueScript.Proofs.Scanner.LineSpelling
import DialogueScript.Proofs.Scanner.LineStart
import DialogueScript.Proofs.Scanner.Locality
import DialogueScript.Proofs.Scanner.Lookahead
import DialogueScript.Proofs.Scanner.Restyled
import DialogueScript.Proofs.Scanner.RestyledLines
import DialogueScript.Proofs.Scanner.Resume
import DialogueScript.Proofs.Scanner.Spelling
import DialogueScript.Proofs.Scanner.TokenShape
import DialogueScript.Proofs.Session
import DialogueScript.Proofs.Statement.CaseBlocks
import DialogueScript.Proofs.Statement.Chains
import DialogueScript.Proofs.Statement.CommandCourse
import DialogueScript.Proofs.Statement.Groups
import DialogueScript.Proofs.Statement.Numbers
import DialogueScript.Proofs.Statement.Passage
import DialogueScript.Proofs.Statement.RoundTrip
import DialogueScript.Proofs.Statement.Runs
import DialogueScript.Proofs.Text.Line
import DialogueScript.Proofs.Text.Position
import DialogueScript.Proofs.Text.Restyle
import DialogueScript.Proofs.Tree.Builder
import DialogueScript.Proofs.Tree.Clean
import DialogueScript.Proofs.Tree.Complete
import DialogueScript.Proofs.Tree.EventLog
import DialogueScript.Proofs.Tree.Forest
import DialogueScript.Proofs.Tree.Groups
import DialogueScript.Proofs.Tree.Height
import DialogueScript.Proofs.Tree.Located
import DialogueScript.Proofs.Tree.Opened
import DialogueScript.Proofs.Tree.Outline
import DialogueScript.Proofs.Tree.Plan
import DialogueScript.Proofs.Tree.Preorder
import DialogueScript.Proofs.Tree.Record
import DialogueScript.Proofs.Tree.Unclosed
import DialogueScript.Scanner.Basic
import DialogueScript.Scanner.Layout
import DialogueScript.Scanner.Lexeme
import DialogueScript.Scanner.LineReader
import DialogueScript.Scanner.Mode
import DialogueScript.Scanner.Word
import DialogueScript.Session
import DialogueScript.Snippet
import DialogueScript.Text.Basic
import DialogueScript.Text.Line
import DialogueScript.Text.Position
import DialogueScript.Text.Quoted
import DialogueScript.Text.WhiteSpace
import DialogueScript.Token
import DialogueScript.Tree.Basic
import DialogueScript.Tree.Builder
import DialogueScript.Tree.Dump
import DialogueScript.Tree.EventLog
import DialogueScript.Tree.Forest
import DialogueScript.Tree.Located
import DialogueScript.Tree.Preorder
