import Workshop.Catalog.Basic
import Workshop.Catalog.Standard
import Workshop.Catalog.Template
import Workshop.Command.Host
import Workshop.Command.Options
import Workshop.Command.Path
import Workshop.Command.Run
import Workshop.Compilation.Bindings
import Workshop.Compilation.Program
import Workshop.Compilation.Session
import Workshop.Compilation.Value
import Workshop.Compilation.Variables
import Workshop.Diagnostic
import Workshop.Journal
import Workshop.Json
import Workshop.Main
import Workshop.Output.Line
import Workshop.Output.Minify
import Workshop.Output.RuleLayout
import Workshop.Output.Term
import Workshop.Proofs.Allocation
import Workshop.Proofs.Calls.Fitting
import Workshop.Proofs.Calls.Forms
import Workshop.Proofs.Command.SourceNames
import Workshop.Proofs.Command.WrittenFiles
import Workshop.Proofs.Documents
import Workshop.Proofs.Guarded.Accesses
import Workshop.Proofs.Guarded.Images
import Workshop.Proofs.Guarded.Programs
import Workshop.Proofs.Lexing.OperatorTables
import Workshop.Proofs.Lexing.Places
import Workshop.Proofs.Lexing.Segmentation
import Workshop.Proofs.Lexing.Spacing
import Workshop.Proofs.Moves
import Workshop.Proofs.NameMap
import Workshop.Proofs.NestedScopes
import Workshop.Proofs.Output.ActionSections
import Workshop.Proofs.Output.Arguments
import Workshop.Proofs.Output.CallTexts
import Workshop.Proofs.Output.Formulas
import Workshop.Proofs.Output.Headers
import Workshop.Proofs.Output.Layouts
import Workshop.Proofs.Output.LiteralTexts
import Workshop.Proofs.Output.Minified
import Workshop.Proofs.Output.Nesting
import Workshop.Proofs.Output.Outlines
import Workshop.Proofs.Output.Readability
import Workshop.Proofs.Output.Statements
import Workshop.Proofs.Printing.Printer
import Workshop.Proofs.Printing.RoundTrip
import Workshop.Proofs.Reading.BareConditions
import Workshop.Proofs.Reading.Climbing
import Workshop.Proofs.Reading.Completeness
import Workshop.Proofs.Reading.Correspondence
import Workshop.Proofs.Reading.Cursor
import Workshop.Proofs.Reading.CursorSteps
import Workshop.Proofs.Reading.Derivations
import Workshop.Proofs.Reading.Diagnostics
import Workshop.Proofs.Reading.Enclosing
import Workshop.Proofs.Reading.Exchange
import Workshop.Proofs.Reading.Invariance
import Workshop.Proofs.Reading.Lists
import Workshop.Proofs.Reading.Operands
import Workshop.Proofs.Reading.Operations
import Workshop.Proofs.Reading.Parentheses
import Workshop.Proofs.Reading.Phrases
import Workshop.Proofs.Reading.Precedence
import Workshop.Proofs.Reading.Progress
import Workshop.Proofs.Reading.ProperTree
import Workshop.Proofs.Reading.Readers
import Workshop.Proofs.Reading.Rules
import Workshop.Proofs.Reading.Sequences
import Workshop.Proofs.Reading.Soundness
import Workshop.Proofs.Reading.Termination
import Workshop.Proofs.Reading.TreeForm
import Workshop.Proofs.Reading.ValidWords
import Workshop.Proofs.Renaming
import Workshop.Proofs.Resolution.Agreement
import Workshop.Proofs.Resolution.Correctness
import Workshop.Proofs.Resolution.Emission
import Workshop.Proofs.Storage
import Workshop.Proofs.Substitution
import Workshop.Proofs.Walk.Balance
import Workshop.Proofs.Walk.Coverage
import Workshop.Proofs.Walk.Definitions
import Workshop.Proofs.Walk.History
import Workshop.Proofs.Walk.Members
import Workshop.Proofs.Walk.Naming
import Workshop.Proofs.Walk.Origins
import Workshop.Proofs.Walk.Points
import Workshop.Proofs.Walk.Preservation
import Workshop.Proofs.Walk.SettledTypes
import Workshop.Proofs.Walk.SharedNames
import Workshop.Proofs.Walk.SteadyRules
import Workshop.Script.Grammar
import Workshop.Script.Lexeme
import Workshop.Script.Lexing
import Workshop.Script.Node
import Workshop.Script.Operator
import Workshop.Script.OperatorTree
import Workshop.Script.Token
import Workshop.Script.TokenStream
import Workshop.Script.Vocabulary
import Workshop.SemanticError
import Workshop.Storage.Bank
import Workshop.Storage.Frame
import Workshop.Storage.Scopes
import Workshop.Storage.Table
import Workshop.Text.CodeRange
import Workshop.Text.GraphemeExtend
import Workshop.Text.Lines
import Workshop.Text.Lowercase
import Workshop.Text.Printable
import Workshop.Text.Quoted
import Workshop.Text.WhiteSpace
import Workshop.ValueType
