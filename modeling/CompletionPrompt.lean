import CompletionPrompt.Binding
import CompletionPrompt.Budget
import CompletionPrompt.CommandLine.Arguments
import CompletionPrompt.CommandLine.Task
import CompletionPrompt.Config
import CompletionPrompt.Config.Settings
import CompletionPrompt.Declarations
import CompletionPrompt.Driver.Execution
import CompletionPrompt.Driver.Program
import CompletionPrompt.Driver.Request
import CompletionPrompt.Driver.Snapshot
import CompletionPrompt.Effect
import CompletionPrompt.Failure
import CompletionPrompt.Host
import CompletionPrompt.Host.Files
import CompletionPrompt.Import
import CompletionPrompt.Import.Resolution
import CompletionPrompt.Import.Statement
import CompletionPrompt.Introspection
import CompletionPrompt.Json.Reader
import CompletionPrompt.Json.Record
import CompletionPrompt.Json.Token
import CompletionPrompt.Json.Value
import CompletionPrompt.Main
import CompletionPrompt.Namespace
import CompletionPrompt.Path
import CompletionPrompt.Prompt
import CompletionPrompt.Proofs.Budget.Least
import CompletionPrompt.Proofs.Budget.LeftCut
import CompletionPrompt.Proofs.Budget.Shown
import CompletionPrompt.Proofs.Budget.Truncation
import CompletionPrompt.Proofs.Declarations.Declared
import CompletionPrompt.Proofs.Declarations.Listed
import CompletionPrompt.Proofs.Declarations.Methods
import CompletionPrompt.Proofs.Declarations.Privacy
import CompletionPrompt.Proofs.Driver.Command
import CompletionPrompt.Proofs.Driver.Embedding
import CompletionPrompt.Proofs.Driver.Report
import CompletionPrompt.Proofs.Effect.Attempts
import CompletionPrompt.Proofs.Effect.Description
import CompletionPrompt.Proofs.Effect.Level
import CompletionPrompt.Proofs.Effect.Represented
import CompletionPrompt.Proofs.Effect.Unpacking
import CompletionPrompt.Proofs.Host.Action
import CompletionPrompt.Proofs.Host.Files
import CompletionPrompt.Proofs.Import.CleanModule
import CompletionPrompt.Proofs.Import.Erasure
import CompletionPrompt.Proofs.Import.FromLayout
import CompletionPrompt.Proofs.Import.FromStatement
import CompletionPrompt.Proofs.Import.Gap
import CompletionPrompt.Proofs.Import.ListSearch
import CompletionPrompt.Proofs.Import.Located
import CompletionPrompt.Proofs.Import.ModulePath
import CompletionPrompt.Proofs.Import.ModuleSearch
import CompletionPrompt.Proofs.Import.NameList
import CompletionPrompt.Proofs.Import.PlainStatement
import CompletionPrompt.Proofs.Import.Record
import CompletionPrompt.Proofs.Import.Resolution
import CompletionPrompt.Proofs.Import.Search
import CompletionPrompt.Proofs.Import.SearchDirs
import CompletionPrompt.Proofs.Import.Updates
import CompletionPrompt.Proofs.Introspection.Agreement
import CompletionPrompt.Proofs.Introspection.Child
import CompletionPrompt.Proofs.Introspection.Cleanup
import CompletionPrompt.Proofs.Introspection.DriverPath
import CompletionPrompt.Proofs.Introspection.ModuleName
import CompletionPrompt.Proofs.Json.Pretty
import CompletionPrompt.Proofs.Json.Reading
import CompletionPrompt.Proofs.Json.Records
import CompletionPrompt.Proofs.Json.Scalars
import CompletionPrompt.Proofs.Json.Tokens
import CompletionPrompt.Proofs.Json.Written
import CompletionPrompt.Proofs.Namespace.Insertion
import CompletionPrompt.Proofs.Namespace.Members
import CompletionPrompt.Proofs.Namespace.Record
import CompletionPrompt.Proofs.Path.Components
import CompletionPrompt.Proofs.Prompt.Blocks
import CompletionPrompt.Proofs.Prompt.Children
import CompletionPrompt.Proofs.Prompt.Descriptions
import CompletionPrompt.Proofs.Prompt.Draft
import CompletionPrompt.Proofs.Prompt.ImportRows
import CompletionPrompt.Proofs.Prompt.Insertion
import CompletionPrompt.Proofs.Prompt.KeptRows
import CompletionPrompt.Proofs.Prompt.ListedOrder
import CompletionPrompt.Proofs.Prompt.NoImports
import CompletionPrompt.Proofs.Prompt.OnlyOccurrence
import CompletionPrompt.Proofs.Prompt.Replacement
import CompletionPrompt.Proofs.Prompt.Swallowed
import CompletionPrompt.Proofs.Prompt.Traced
import CompletionPrompt.Proofs.Source.Assembly
import CompletionPrompt.Proofs.Source.Beginning
import CompletionPrompt.Proofs.Source.CutOff
import CompletionPrompt.Proofs.Source.Down
import CompletionPrompt.Proofs.Source.ImportSpans
import CompletionPrompt.Proofs.Source.Laws
import CompletionPrompt.Proofs.Source.Layout
import CompletionPrompt.Proofs.Source.LayoutTree
import CompletionPrompt.Proofs.Source.LeadingFeed
import CompletionPrompt.Proofs.Source.Lookahead
import CompletionPrompt.Proofs.Source.Order
import CompletionPrompt.Proofs.Source.Places
import CompletionPrompt.Proofs.Source.Tree
import CompletionPrompt.Proofs.Span.Bytes
import CompletionPrompt.Proofs.Span.Clamped
import CompletionPrompt.Proofs.Span.Order
import CompletionPrompt.Proofs.Span.Region
import CompletionPrompt.Proofs.Span.Substitution
import CompletionPrompt.Proofs.Target.Cut
import CompletionPrompt.Proofs.Target.HeaderEnd
import CompletionPrompt.Proofs.Target.KeptImports
import CompletionPrompt.Proofs.Text.Erasing
import CompletionPrompt.Proofs.Text.FoundRows
import CompletionPrompt.Proofs.Text.Joined
import CompletionPrompt.Proofs.Text.Occurrences
import CompletionPrompt.Proofs.Text.Pieces
import CompletionPrompt.Proofs.Text.Place
import CompletionPrompt.Source.Grammar
import CompletionPrompt.Source.Imports
import CompletionPrompt.Source.LayoutTree
import CompletionPrompt.Source.Lexeme
import CompletionPrompt.Source.Literal
import CompletionPrompt.Source.Statement
import CompletionPrompt.Source.Tree
import CompletionPrompt.Span
import CompletionPrompt.Span.Edit
import CompletionPrompt.Strategy
import CompletionPrompt.Target
import CompletionPrompt.Text.Blank
import CompletionPrompt.Text.Columns
import CompletionPrompt.Text.Octets
import CompletionPrompt.Text.Quoted
import CompletionPrompt.Text.Rows
import CompletionPrompt.Text.Search
import CompletionPrompt.Text.Unshown
