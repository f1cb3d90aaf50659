import Millrace.Command
import Millrace.Dataset.Basic
import Millrace.Dataset.Table
import Millrace.Document.Hcl
import Millrace.Document.Hcl.Body
import Millrace.Document.Hcl.Scalar
import Millrace.Document.Json
import Millrace.Document.JsonText
import Millrace.Document.Reader
import Millrace.Document.ReportForm
import Millrace.Document.SchemaForm
import Millrace.Document.Toml
import Millrace.Document.Toml.Scalar
import Millrace.Document.Toml.Table
import Millrace.Document.Tree
import Millrace.Failure
import Millrace.FastPath.Compiled
import Millrace.FastPath.Decline
import Millrace.FastPath.Lowered
import Millrace.FastPath.Lowering
import Millrace.FastPath.Memo
import Millrace.Fault
import Millrace.Inference
import Millrace.Job.Basic
import Millrace.Job.File
import Millrace.Job.Form
import Millrace.Lambda.Basic
import Millrace.Lambda.Builtin
import Millrace.Lambda.Call
import Millrace.Lambda.Error
import Millrace.Lambda.Eval
import Millrace.Lambda.Expr
import Millrace.Lambda.Lexer
import Millrace.Lambda.Operation
import Millrace.Lambda.Operator
import Millrace.Lambda.Parser
import Millrace.Lambda.Registry
import Millrace.Lambda.Token
import Millrace.Main
import Millrace.Number.Decimal
import Millrace.Number.Digits
import Millrace.Number.Double
import Millrace.Number.Exact
import Millrace.Number.Numeral
import Millrace.Number.Real
import Millrace.Number.Shortest
import Millrace.Number.Whole
import Millrace.Pipeline.Batch
import Millrace.Pipeline.RowState
import Millrace.Pipeline.Run
import Millrace.Pipeline.Stage
import Millrace.Pipeline.Tally
import Millrace.Schema
import Millrace.Settings
import Millrace.Text.Blank
import Millrace.Text.Escaped
import Millrace.Text.Name
import Millrace.Text.Quoted
import Millrace.Value
import Millrace.Value.Fingerprint
import Millrace.Value.Text
import Millrace.Proofs.Results
import Millrace.Proofs.Number.Order
import Millrace.Proofs.Number.Rounding
import Millrace.Proofs.Number.Arithmetic
import Millrace.Proofs.Number.Naturals
import Millrace.Proofs.Inference.Majority
import Millrace.Proofs.FastPath.Agreement
import Millrace.Proofs.FastPath.Operators
import Millrace.Proofs.Lambda.DataFaults
import Millrace.Proofs.Lambda.Causes
import Millrace.Proofs.FastPath.Sequences
import Millrace.Proofs.FastPath.Branches
import Millrace.Proofs.FastPath.Calls
import Millrace.Proofs.FastPath.Simulation
import Millrace.Proofs.FastPath.Typing
import Millrace.Proofs.FastPath.Columns
import Millrace.Proofs.Pipeline.Tally
import Millrace.Proofs.Pipeline.Handlers
import Millrace.Proofs.Pipeline.Sweep
import Millrace.Proofs.Pipeline.Interleaving
import Millrace.Proofs.Pipeline.Outcome
import Millrace.Proofs.Pipeline.Cancellation
import Millrace.Proofs.Pipeline.Slots
import Millrace.Proofs.Pipeline.Schedule
import Millrace.Proofs.Lambda.NamedColumns
import Millrace.Proofs.Pipeline.Sequential
import Millrace.Proofs.Inference.Unanimous
import Millrace.Proofs.Pipeline.Completion
import Millrace.Proofs.Pipeline.Fallback
import Millrace.Proofs.Pipeline.Widths
import Millrace.Proofs.Pipeline.Balance
import Millrace.Proofs.Dataset.Edits
import Millrace.Proofs.Dataset.Cancellation
import Millrace.Proofs.Dataset.Shape
import Millrace.Proofs.Pipeline.Conservation
import Millrace.Proofs.Lambda.Grammar
import Millrace.Proofs.Lambda.Descent
import Millrace.Proofs.Lambda.Lookahead
import Millrace.Proofs.Lambda.Acceptance
import Millrace.Proofs.Lambda.Scoping
import Millrace.Proofs.Lambda.Lexing
import Millrace.Proofs.Lambda.Literals
import Millrace.Proofs.Pipeline.Courses
import Millrace.Proofs.Pipeline.FaultCounts
import Millrace.Proofs.Pipeline.Distinct
import Millrace.Proofs.Pipeline.Report
import Millrace.Proofs.Inference.Specificity
import Millrace.Proofs.Inference.Nesting
import Millrace.Proofs.Inference.CommonSchema
import Millrace.Proofs.Inference.Threshold
import Millrace.Proofs.Lambda.Binding
import Millrace.Proofs.Lambda.Lexemes
import Millrace.Proofs.Lambda.Utf8
import Millrace.Proofs.Lambda.ByteLexer
import Millrace.Proofs.Lambda.Spans
import Millrace.Proofs.Value.Standing
import Millrace.Proofs.Number.Conversion
import Millrace.Proofs.Number.Stored
import Millrace.Proofs.Number.Transitivity
import Millrace.Proofs.Value.Extrema
import Millrace.Proofs.Number.Words
import Millrace.Proofs.Lambda.Identities
import Millrace.Proofs.FastPath.Transparency
import Millrace.Proofs.Pipeline.Recall
import Millrace.Proofs.Number.Digits
import Millrace.Proofs.Number.Significant
import Millrace.Proofs.Number.DecimalText
import Millrace.Proofs.Number.GeneralFormat
import Millrace.Proofs.Value.Fingerprint
import Millrace.Proofs.Dataset.Table
