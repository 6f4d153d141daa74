import SqlLowering.Calendar.Date
import SqlLowering.Calendar.Timestamp
import SqlLowering.Calendar.Weekday
import SqlLowering.Codec.Expr
import SqlLowering.Codec.Value
import SqlLowering.Command.Arguments
import SqlLowering.Command.Output
import SqlLowering.Command.Run
import SqlLowering.Config
import SqlLowering.DataType
import SqlLowering.Dialect.Columns
import SqlLowering.Dialect.Context
import SqlLowering.Dialect.Feature
import SqlLowering.Dialect.Version
import SqlLowering.Error
import SqlLowering.Expr.Basic
import SqlLowering.Expr.Composite
import SqlLowering.Expr.Measure
import SqlLowering.Expr.Stack
import SqlLowering.Expr.Typing
import SqlLowering.Format.Mode
import SqlLowering.Format.Specifier
import SqlLowering.Format.Symbol
import SqlLowering.Fragment
import SqlLowering.Function
import SqlLowering.Json.Basic
import SqlLowering.Json.Numeral
import SqlLowering.Json.Reader
import SqlLowering.Json.Shape
import SqlLowering.Json.Token
import SqlLowering.Json.Writer
import SqlLowering.Lowering.Atom
import SqlLowering.Lowering.Basic
import SqlLowering.Lowering.Call
import SqlLowering.Lowering.Condition
import SqlLowering.Lowering.Conversion
import SqlLowering.Lowering.Grouping
import SqlLowering.Lowering.Literal
import SqlLowering.Lowering.Operation
import SqlLowering.Lowering.Root
import SqlLowering.Lowering.Rule
import SqlLowering.Main
import SqlLowering.Number.Binary
import SqlLowering.Number.Decimal
import SqlLowering.Number.Notation
import SqlLowering.Number.Shortest
import SqlLowering.Operator
import SqlLowering.Outcome
import SqlLowering.Proofs.Aliases
import SqlLowering.Proofs.Alignment
import SqlLowering.Proofs.AnchoredRegex
import SqlLowering.Proofs.ArithmeticTypes
import SqlLowering.Proofs.Assembly
import SqlLowering.Proofs.CallShapes
import SqlLowering.Proofs.ClockAbbreviation
import SqlLowering.Proofs.Codecs
import SqlLowering.Proofs.Comparison
import SqlLowering.Proofs.Configuration
import SqlLowering.Proofs.Containment
import SqlLowering.Proofs.Contexts
import SqlLowering.Proofs.DayArithmetic
import SqlLowering.Proofs.DecimalTypes
import SqlLowering.Proofs.DistinctKeys
import SqlLowering.Proofs.Equations
import SqlLowering.Proofs.FilteredAggregates
import SqlLowering.Proofs.FrameTexts
import SqlLowering.Proofs.Grammar
import SqlLowering.Proofs.JsonText
import SqlLowering.Proofs.LexicalSafety
import SqlLowering.Proofs.LiteralTexts
import SqlLowering.Proofs.Membership
import SqlLowering.Proofs.NonInterference
import SqlLowering.Proofs.Notices
import SqlLowering.Proofs.NullCasts
import SqlLowering.Proofs.Operands
import SqlLowering.Proofs.Outcome
import SqlLowering.Proofs.Places
import SqlLowering.Proofs.Precedence
import SqlLowering.Proofs.Provenance
import SqlLowering.Proofs.ReadBack
import SqlLowering.Proofs.Replacement
import SqlLowering.Proofs.RoundTrip
import SqlLowering.Proofs.RuleOrder
import SqlLowering.Proofs.SafeText
import SqlLowering.Proofs.Scanning
import SqlLowering.Proofs.Shape
import SqlLowering.Proofs.SpecifierRuns
import SqlLowering.Proofs.SymbolRuns
import SqlLowering.Proofs.Termination
import SqlLowering.Proofs.TextTests
import SqlLowering.Proofs.VersionTexts
import SqlLowering.Proofs.Weekdays
import SqlLowering.Proofs.Wording
import SqlLowering.Session
import SqlLowering.Text.Blank
import SqlLowering.Text.Digits
import SqlLowering.Text.Quoted
import SqlLowering.Text.Scanner
import SqlLowering.Text.Split
import SqlLowering.Toml.Basic
import SqlLowering.Toml.Reader
import SqlLowering.Toml.Scalar
import SqlLowering.Toml.Table
import SqlLowering.Value
