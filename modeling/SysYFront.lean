import SysYFront.Checker
import SysYFront.CommandLine
import SysYFront.Compile
import SysYFront.Decl.Basic
import SysYFront.Decl.Check
import SysYFront.Decl.Layout
import SysYFront.Decl.Read
import SysYFront.Diagnostic
import SysYFront.Expr.Basic
import SysYFront.Expr.Check
import SysYFront.Expr.Read
import SysYFront.Function.Basic
import SysYFront.Function.Check
import SysYFront.Function.Read
import SysYFront.Location
import SysYFront.Main
import SysYFront.Number.Binary32
import SysYFront.Number.Layout
import SysYFront.Number.Shortest
import SysYFront.Operator
import SysYFront.Program.Basic
import SysYFront.Program.Check
import SysYFront.Program.Read
import SysYFront.Reading
import SysYFront.Render.Compact
import SysYFront.Render.Outline
import SysYFront.Scalar
import SysYFront.Scopes
import SysYFront.Shape
import SysYFront.Signature
import SysYFront.Stmt.Basic
import SysYFront.Stmt.Check
import SysYFront.Stmt.Read
import SysYFront.Text.Quoted
import SysYFront.Text.Unprintable
import SysYFront.Token.Basic
import SysYFront.Token.Piece
import SysYFront.Token.Source
import SysYFront.ValueType
import SysYFront.Proofs.Outcome
import SysYFront.Proofs.Recheck
import SysYFront.Proofs.Meaning.Constant
import SysYFront.Proofs.Meaning.Folding
import SysYFront.Proofs.Meaning.Notes
import SysYFront.Proofs.Meaning.Typing
import SysYFront.Proofs.Meaning.Rules
import SysYFront.Proofs.Window
import SysYFront.Proofs.Agreement.Expr
import SysYFront.Proofs.Agreement.Layout
import SysYFront.Proofs.Agreement.Decl
import SysYFront.Proofs.Agreement.Stmt
import SysYFront.Proofs.Agreement.Function
import SysYFront.Proofs.Agreement.Program
import SysYFront.Proofs.Readable
import SysYFront.Proofs.Checked
import SysYFront.Proofs.Grammar.Phrase
import SysYFront.Proofs.Grammar.Climbing
import SysYFront.Proofs.Grammar.Expr
import SysYFront.Proofs.Grammar.Position
import SysYFront.Proofs.Grammar.Decl
import SysYFront.Proofs.Grammar.Stmt
import SysYFront.Proofs.Grammar.Program
import SysYFront.Proofs.Invariant.Typed
import SysYFront.Proofs.Invariant.Points
import SysYFront.Proofs.Arithmetic.IntExpr
import SysYFront.Proofs.Arithmetic.Read
import SysYFront.Proofs.Arithmetic.Compile
import SysYFront.Proofs.Session.Restore
import SysYFront.Proofs.Session.Passes
import SysYFront.Proofs.Session.Survival
import SysYFront.Proofs.Session.Growth
import SysYFront.Proofs.Session.Stages
import SysYFront.Proofs.Session.Reorder
import SysYFront.Proofs.Session.Batch
import SysYFront.Proofs.Session.Names
import SysYFront.Proofs.Session.Footprint
import SysYFront.Proofs.Elements.Spelling
import SysYFront.Proofs.Elements.Reading
import SysYFront.Proofs.Elements.RowMajor
import SysYFront.Proofs.Elements.Count
import SysYFront.Proofs.Source.Partition
import SysYFront.Proofs.Source.Lines
import SysYFront.Proofs.Source.Spelling
import SysYFront.Proofs.Source.Numeral
import SysYFront.Proofs.Viable.Expr
import SysYFront.Proofs.Viable.Decl
import SysYFront.Proofs.Viable.Stmt
import SysYFront.Proofs.Viable.Unit
import SysYFront.Proofs.Viable.Program
import SysYFront.Proofs.Relocation.Tree
import SysYFront.Proofs.Relocation.Run
import SysYFront.Proofs.Relocation.Read
import SysYFront.Proofs.Relocation.Check
import SysYFront.Proofs.Relocation.Compile
import SysYFront.Proofs.Blame
import SysYFront.Proofs.Origin.Mark
import SysYFront.Proofs.Origin.Check
import SysYFront.Proofs.Origin.Compile
import SysYFront.Proofs.Storage.Sites
import SysYFront.Proofs.Storage.Valid
import SysYFront.Proofs.Storage.Refusal
import SysYFront.Proofs.Storage.Assign
import SysYFront.Proofs.Storage.Call
import SysYFront.Proofs.Layout.Seats
import SysYFront.Proofs.Layout.Table
import SysYFront.Proofs.Layout.Braces
import SysYFront.Proofs.Domain.Types
import SysYFront.Proofs.Domain.Layout
import SysYFront.Proofs.Domain.Check
import SysYFront.Proofs.Progress.Recursion
import SysYFront.Proofs.Progress.Expr
import SysYFront.Proofs.Progress.Decl
import SysYFront.Proofs.Progress.Stmt
import SysYFront.Proofs.Progress.Program
import SysYFront.Proofs.Progress.Stream
import SysYFront.Proofs.Ending.Reading
import SysYFront.Proofs.Ending.Phrase
import SysYFront.Proofs.Ending.Whole
import SysYFront.Proofs.Ending.Stream
