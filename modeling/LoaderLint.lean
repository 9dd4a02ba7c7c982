import LoaderLint.Analyzer.Basic
import LoaderLint.Analyzer.Run
import LoaderLint.CommandLine.Arguments
import LoaderLint.CommandLine.Help
import LoaderLint.CommandLine.Run
import LoaderLint.CommandLine.Template
import LoaderLint.Config.Basic
import LoaderLint.Config.Decode
import LoaderLint.Config.Selection
import LoaderLint.Decimal.Nearest
import LoaderLint.Decimal.Shortest
import LoaderLint.Directive
import LoaderLint.FileTree
import LoaderLint.Finding
import LoaderLint.Glob
import LoaderLint.Ignore.Pattern
import LoaderLint.Ignore.Rules
import LoaderLint.Json.Layout
import LoaderLint.Json.Reader
import LoaderLint.Json.Record
import LoaderLint.Loader.Arity
import LoaderLint.Loader.Call
import LoaderLint.Loader.Dependencies
import LoaderLint.Log
import LoaderLint.Main
import LoaderLint.Path
import LoaderLint.Report
import LoaderLint.Report.Json
import LoaderLint.Rule
import LoaderLint.Script.Grammar
import LoaderLint.Script.Grammar.Declaration
import LoaderLint.Script.Grammar.Expression
import LoaderLint.Script.Grammar.Function
import LoaderLint.Script.Grammar.Goal
import LoaderLint.Script.Grammar.Literal
import LoaderLint.Script.Grammar.Markup
import LoaderLint.Script.Grammar.Statement
import LoaderLint.Script.Lexeme
import LoaderLint.Script.Node
import LoaderLint.Script.Pattern
import LoaderLint.Script.Program
import LoaderLint.Script.Reader
import LoaderLint.Script.Span
import LoaderLint.Script.StringValue
import LoaderLint.Severity
import LoaderLint.Sink
import LoaderLint.Text.Blank
import LoaderLint.Text.Digits
import LoaderLint.Text.Quoted
import LoaderLint.Text.Split
import LoaderLint.Text.Utf8
import LoaderLint.Toml.Document
import LoaderLint.Toml.Scalar
import LoaderLint.Toml.Value
import LoaderLint.Walk
import LoaderLint.Proofs.FunctionArity
import LoaderLint.Proofs.PlaceOrder
import LoaderLint.Proofs.WholeRun
import LoaderLint.Proofs.Numerals
import LoaderLint.Proofs.JsonReading
import LoaderLint.Proofs.ReportRoundTrip
import LoaderLint.Proofs.RelaxedPolicies
import LoaderLint.Proofs.DirectiveEffect
import LoaderLint.Proofs.TreeLayout
import LoaderLint.Proofs.ReaderLayout
import LoaderLint.Proofs.ReaderContracts
import LoaderLint.Proofs.OperandLayout
import LoaderLint.Proofs.ProgramLayout
import LoaderLint.Proofs.RepeatedFindings
import LoaderLint.Proofs.TextLines
import LoaderLint.Proofs.DirectiveGrammar
import LoaderLint.Proofs.CommentDirectives
import LoaderLint.Proofs.RuleIndependence
import LoaderLint.Proofs.Traversal
import LoaderLint.Proofs.PathsBelow
import LoaderLint.Proofs.ProjectRoot
import LoaderLint.Proofs.NodeForms
import LoaderLint.Proofs.CallForms
import LoaderLint.Proofs.AcceptedCounts
import LoaderLint.Proofs.CallShapes
import LoaderLint.Proofs.ArraySlots
import LoaderLint.Proofs.DirectiveRoundTrip
import LoaderLint.Proofs.NodeFindings
import LoaderLint.Proofs.ReportHistory
import LoaderLint.Proofs.ParenthesizedTargets
import LoaderLint.Proofs.StringSpelling
import LoaderLint.Proofs.ListedNames
import LoaderLint.Proofs.SurrogatePairs
import LoaderLint.Proofs.RuleSelection
import LoaderLint.Proofs.DocumentKeys
import LoaderLint.Proofs.RuleSections
import LoaderLint.Proofs.RuleOptions
import LoaderLint.Proofs.SortedReports
import LoaderLint.Proofs.SeverityOverrides
import LoaderLint.Proofs.FileDiscovery
import LoaderLint.Proofs.AddedExclusions
import LoaderLint.Proofs.ColouredReports
import LoaderLint.Proofs.ExitStatus
import LoaderLint.Proofs.ReportedPaths
import LoaderLint.Proofs.LossyDecoding
import LoaderLint.Proofs.TextOffsets
import LoaderLint.Proofs.StatementLines
import LoaderLint.Proofs.LabelledSpans
import LoaderLint.Proofs.CompactReports
