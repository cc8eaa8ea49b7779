import Numlet.Binary64.Basic
import Numlet.Binary64.Reading
import Numlet.Binary64.Shortest
import Numlet.Check.Expr
import Numlet.Check.Program
import Numlet.Check.Scope
import Numlet.Check.Sites
import Numlet.Check.State
import Numlet.Check.Stmt
import Numlet.Code.Form
import Numlet.Code.Host
import Numlet.Code.Instr
import Numlet.Code.Lower
import Numlet.Code.Module
import Numlet.Code.Slots
import Numlet.Code.State
import Numlet.CommandLine
import Numlet.Compile
import Numlet.Diagnostic
import Numlet.Diagnostic.Render
import Numlet.Event
import Numlet.Literal
import Numlet.Main
import Numlet.NumType
import Numlet.Options
import Numlet.Proofs.Alike
import Numlet.Proofs.Blame
import Numlet.Proofs.CallAgreement
import Numlet.Proofs.CallClosure
import Numlet.Proofs.Caret
import Numlet.Proofs.Check.Advance
import Numlet.Proofs.Check.Asked
import Numlet.Proofs.Check.Bindings
import Numlet.Proofs.Check.Blame
import Numlet.Proofs.Check.Body
import Numlet.Proofs.Check.Calls
import Numlet.Proofs.Check.Complete
import Numlet.Proofs.Check.Context
import Numlet.Proofs.Check.Coupled
import Numlet.Proofs.Check.CoupledBodies
import Numlet.Proofs.Check.Frame
import Numlet.Proofs.Check.Functions
import Numlet.Proofs.Check.Growth
import Numlet.Proofs.Check.Hints
import Numlet.Proofs.Check.Inside
import Numlet.Proofs.Check.Leaves
import Numlet.Proofs.Check.Locals
import Numlet.Proofs.Check.Naming
import Numlet.Proofs.Check.Order
import Numlet.Proofs.Check.Passes
import Numlet.Proofs.Check.Pins
import Numlet.Proofs.Check.Programs
import Numlet.Proofs.Check.Ready
import Numlet.Proofs.Check.Renaming
import Numlet.Proofs.Check.Repeated
import Numlet.Proofs.Check.Rerun
import Numlet.Proofs.Check.Returns
import Numlet.Proofs.Check.Retyped
import Numlet.Proofs.Check.Run
import Numlet.Proofs.Check.Settled
import Numlet.Proofs.Check.Sound
import Numlet.Proofs.Check.Statements
import Numlet.Proofs.Check.Step
import Numlet.Proofs.Check.Stores
import Numlet.Proofs.Code.Blame
import Numlet.Proofs.Code.Carried
import Numlet.Proofs.Code.Coercions
import Numlet.Proofs.Code.Constants
import Numlet.Proofs.Code.Conversions
import Numlet.Proofs.Code.Coupled
import Numlet.Proofs.Code.Declared
import Numlet.Proofs.Code.Forced
import Numlet.Proofs.Code.Layout
import Numlet.Proofs.Code.Lines
import Numlet.Proofs.Code.Linking
import Numlet.Proofs.Code.Lowered
import Numlet.Proofs.Code.Named
import Numlet.Proofs.Code.Nodes
import Numlet.Proofs.Code.Places
import Numlet.Proofs.Code.Programs
import Numlet.Proofs.Code.Sites
import Numlet.Proofs.Code.Statements
import Numlet.Proofs.Code.Typing
import Numlet.Proofs.Code.Validation
import Numlet.Proofs.Code.Writing
import Numlet.Proofs.ConstantOperands
import Numlet.Proofs.ControlContext
import Numlet.Proofs.DefinitionOrder
import Numlet.Proofs.Diagnostics
import Numlet.Proofs.Emission
import Numlet.Proofs.ExpressionGrammar
import Numlet.Proofs.Formatting
import Numlet.Proofs.Identifiers
import Numlet.Proofs.Independence
import Numlet.Proofs.InferredResults
import Numlet.Proofs.MaximalMunch
import Numlet.Proofs.Meaning.Expressions
import Numlet.Proofs.Meaning.Machine
import Numlet.Proofs.Meaning.Statements
import Numlet.Proofs.Meaning.Tree
import Numlet.Proofs.Meaning.Values
import Numlet.Proofs.Outcome
import Numlet.Proofs.Placed
import Numlet.Proofs.Preservation
import Numlet.Proofs.Progress
import Numlet.Proofs.Prologue
import Numlet.Proofs.Recheck
import Numlet.Proofs.RoundTrip
import Numlet.Proofs.Scoping
import Numlet.Proofs.Settling
import Numlet.Proofs.SlotRequests
import Numlet.Proofs.Slots
import Numlet.Proofs.SourceLines
import Numlet.Proofs.SpanNesting
import Numlet.Proofs.StorageSummary
import Numlet.Proofs.StrictMode
import Numlet.Proofs.Tables
import Numlet.Proofs.Token.Longest
import Numlet.Proofs.Token.Standing
import Numlet.Proofs.Token.Tiling
import Numlet.Proofs.Tokenization
import Numlet.Proofs.Tree.Accepted
import Numlet.Proofs.Tree.Blame
import Numlet.Proofs.Tree.Layout
import Numlet.Proofs.Tree.Leaves
import Numlet.Proofs.Tree.Moves
import Numlet.Proofs.Tree.Nesting
import Numlet.Proofs.Tree.Outline
import Numlet.Proofs.Tree.Printing
import Numlet.Proofs.Tree.Progress
import Numlet.Proofs.Tree.Reached
import Numlet.Proofs.Tree.ReadBack
import Numlet.Proofs.Tree.Relocated
import Numlet.Proofs.Tree.Resolved
import Numlet.Proofs.Tree.SameText
import Numlet.Proofs.Tree.Spelled
import Numlet.Proofs.Tree.Steps
import Numlet.Proofs.Tree.Strata
import Numlet.Proofs.Tree.Unplaced
import Numlet.Proofs.Typed.Parts
import Numlet.Proofs.Typed.Paths
import Numlet.Proofs.Typed.Relocated
import Numlet.Proofs.Typed.Sound
import Numlet.Proofs.Validity
import Numlet.Proofs.WholeNumbers
import Numlet.Proofs.Widening
import Numlet.Proofs.WriteBeforeRead
import Numlet.Span
import Numlet.Span.Line
import Numlet.Table
import Numlet.Text.Blank
import Numlet.Text.Bytes
import Numlet.Text.Extender
import Numlet.Text.Quoted
import Numlet.Text.Unprintable
import Numlet.Text.Word
import Numlet.Token
import Numlet.Token.Pattern
import Numlet.Token.Reader
import Numlet.Token.Scan
import Numlet.Tree
import Numlet.Tree.Cursor
import Numlet.Tree.Grammar
import Numlet.Tree.ReadExpr
import Numlet.Tree.ReadStmt
import Numlet.Typed
