import FieldRules.Sorted
import FieldRules.Text.Bytes
import FieldRules.Text.CodePoints
import FieldRules.Text.Letter
import FieldRules.Text.Case
import FieldRules.Text.Printable
import FieldRules.Text.Blank
import FieldRules.Text.Position
import FieldRules.Number.Shortest
import FieldRules.Number.Layout
import FieldRules.Number.Numeral
import FieldRules.Number.Precision
import FieldRules.Json.Basic
import FieldRules.Json.Written
import FieldRules.Json.Cursor
import FieldRules.Json.Reader
import FieldRules.Json.Located
import FieldRules.Text.Escaped
import FieldRules.Go.Token
import FieldRules.Go.SyntaxError
import FieldRules.Go.Lexer
import FieldRules.Go.TypeExpr
import FieldRules.Go.SourceFile
import FieldRules.Go.Parser
import FieldRules.FieldPath
import FieldRules.Kind
import FieldRules.Kind.Resolution
import FieldRules.Marker
import FieldRules.Occurrence
import FieldRules.Format.Email
import FieldRules.Format.Uuid
import FieldRules.Format.Address
import FieldRules.Literal
import FieldRules.Rule
import FieldRules.Argument
import FieldRules.Value
import FieldRules.Rule.Violation
import FieldRules.Diagnostic
import FieldRules.Plan
import FieldRules.Plan.Build
import FieldRules.Plan.Settle
import FieldRules.Validator
import FieldRules.Text.Quoted
import FieldRules.Go.Code
import FieldRules.Emission.Names
import FieldRules.Emission.Condition
import FieldRules.Emission
import FieldRules.Plan.Unsettled
import FieldRules.CompiledUnit
import FieldRules.Report
import FieldRules.Files.Path
import FieldRules.Files.Tree
import FieldRules.Files.Access
import FieldRules.Files.Pattern
import FieldRules.Files.Glob
import FieldRules.CommandLine.Arguments
import FieldRules.Text.Lines
import FieldRules.CommandLine.Inputs
import FieldRules.CommandLine.Outputs
import FieldRules.CommandLine.Run
import FieldRules.Main
import FieldRules.Proofs.Settling
import FieldRules.Proofs.Sites
import FieldRules.Proofs.Building
import FieldRules.Proofs.Delegates
import FieldRules.Proofs.Accounting
import FieldRules.Proofs.Authority
import FieldRules.Proofs.Lexemes
import FieldRules.Proofs.Readers
import FieldRules.Proofs.TopLevel
import FieldRules.Proofs.Parsing
import FieldRules.Proofs.Places
import FieldRules.Proofs.Independence
import FieldRules.Proofs.Docs
import FieldRules.Proofs.Blanking
import FieldRules.Proofs.Expressions
import FieldRules.Proofs.Reading
import FieldRules.Proofs.Instances
import FieldRules.Proofs.Conditions
import FieldRules.Proofs.Agreement
import FieldRules.Proofs.Depth
import FieldRules.Proofs.Regions
import FieldRules.Proofs.Separation
import FieldRules.Proofs.Effects
import FieldRules.Proofs.Directories
import FieldRules.Proofs.Paths
import FieldRules.Proofs.Rerun
import FieldRules.Proofs.Doubles
import FieldRules.Proofs.Typing
import FieldRules.Proofs.Descent
import FieldRules.Proofs.Blocks
import FieldRules.Proofs.Resolution
import FieldRules.Proofs.Termination
import FieldRules.Proofs.Zeros
import FieldRules.Proofs.Mismatch
import FieldRules.Proofs.Guards
import FieldRules.Proofs.Grammar
import FieldRules.Proofs.Completeness
import FieldRules.Proofs.Skipping
import FieldRules.Proofs.Comments
import FieldRules.Proofs.Ownership
import FieldRules.Proofs.Copying
import FieldRules.Proofs.Printing
import FieldRules.Proofs.Rendering
import FieldRules.Proofs.RoundTrip
import FieldRules.Proofs.Naming
import FieldRules.Proofs.Imports
import FieldRules.Proofs.Unmarked
import FieldRules.Proofs.Frame
import FieldRules.Proofs.Orphans
import FieldRules.Proofs.Sentinels
import FieldRules.Proofs.Routes
import FieldRules.Proofs.Keys
import FieldRules.Proofs.Missing
import FieldRules.Proofs.Permutation
import FieldRules.Proofs.Written
import FieldRules.Proofs.Recasting
import FieldRules.Proofs.Following
import FieldRules.Proofs.Declarations
import FieldRules.Proofs.Items
import FieldRules.Proofs.Concatenation
import FieldRules.Proofs.Verbatim
import FieldRules.Proofs.Returns
import FieldRules.Proofs.LineEnds
import FieldRules.Proofs.Passing
import FieldRules.Proofs.Balance
import FieldRules.Proofs.CodeText
import FieldRules.Proofs.CodeLines
import FieldRules.Proofs.TypeText
import FieldRules.Proofs.Emitted
import FieldRules.Proofs.Rereading
import FieldRules.Proofs.Comparability
import FieldRules.Proofs.Embedding
import FieldRules.Proofs.ReportLines
import FieldRules.Proofs.Order
import FieldRules.Proofs.Quoting
import FieldRules.Proofs.Retyping
import FieldRules.Proofs.MarkerLines
import FieldRules.Proofs.Aliases
import FieldRules.Proofs.Spans
import FieldRules.Proofs.Shapes
import FieldRules.Proofs.Regexes
import FieldRules.Proofs.Formats
import FieldRules.Proofs.Addresses
