import SplQuery.Catalog.Basic
import SplQuery.Catalog.Commands
import SplQuery.Catalog.Description
import SplQuery.Catalog.Functions
import SplQuery.Catalog.Lookup
import SplQuery.CommandLine.Answer
import SplQuery.CommandLine.Request
import SplQuery.Diagnostic.Basic
import SplQuery.Grammar.Command.Aggregate
import SplQuery.Grammar.Command.Create
import SplQuery.Grammar.Command.Extract
import SplQuery.Grammar.Command.Filter
import SplQuery.Grammar.Command.Free
import SplQuery.Grammar.Command.Nested
import SplQuery.Grammar.Expression
import SplQuery.Grammar.Parts
import SplQuery.Grammar.Pipeline
import SplQuery.Grammar.Search
import SplQuery.Grammar.State
import SplQuery.Json
import SplQuery.Json.Records
import SplQuery.Kind.Basic
import SplQuery.Kind.Set
import SplQuery.Kind.Word
import SplQuery.Lexeme.Basic
import SplQuery.Lexeme.Form
import SplQuery.Lexeme.Listing
import SplQuery.Lexeme.Rules
import SplQuery.Lexeme.Scan
import SplQuery.Lexeme.Token
import SplQuery.Lexeme.Wildcard
import SplQuery.Main
import SplQuery.Meaning.Arguments
import SplQuery.Meaning.Basic
import SplQuery.Meaning.Command
import SplQuery.Meaning.Expression
import SplQuery.Meaning.Pipeline
import SplQuery.Meaning.Search
import SplQuery.Number.Binary64
import SplQuery.Number.Decimal
import SplQuery.Number.Notation
import SplQuery.Pattern.Basic
import SplQuery.Pattern.Description
import SplQuery.Pattern.Extent
import SplQuery.Pattern.Lookup
import SplQuery.Pattern.Match
import SplQuery.Pattern.Registry
import SplQuery.Proofs.Arguments.Kept
import SplQuery.Proofs.Arguments.Quoted
import SplQuery.Proofs.Call.Query
import SplQuery.Proofs.Delimiter.Query
import SplQuery.Proofs.Diagnostic.Query
import SplQuery.Proofs.Expression.Climbing
import SplQuery.Proofs.Expression.Meaning
import SplQuery.Proofs.Expression.Roundtrip
import SplQuery.Proofs.Extent.Agreement
import SplQuery.Proofs.Fair.Within
import SplQuery.Proofs.Lexeme.Maximal
import SplQuery.Proofs.Lexeme.Stray
import SplQuery.Proofs.Lexeme.Tokens
import SplQuery.Proofs.Lexeme.Wildcards
import SplQuery.Proofs.Limit.Raised
import SplQuery.Proofs.Nested.Meaning
import SplQuery.Proofs.Operand.Query
import SplQuery.Proofs.Parse
import SplQuery.Proofs.Pattern.Bindings
import SplQuery.Proofs.Pattern.Blame
import SplQuery.Proofs.Pattern.Extent
import SplQuery.Proofs.Pattern.Language
import SplQuery.Proofs.Pattern.Matching
import SplQuery.Proofs.Pattern.Trailing
import SplQuery.Proofs.Query.Created
import SplQuery.Proofs.Query.Glued
import SplQuery.Proofs.Query.Places
import SplQuery.Proofs.Query.Reads
import SplQuery.Proofs.Query.RowLimit
import SplQuery.Proofs.Reading.Query
import SplQuery.Proofs.Reading.Regex
import SplQuery.Proofs.Recovery.Query
import SplQuery.Proofs.Regex.GroupNames
import SplQuery.Proofs.Search.Meaning
import SplQuery.Proofs.Search.Roundtrip
import SplQuery.Proofs.Stack.Query
import SplQuery.Proofs.Stages.Apart
import SplQuery.Proofs.Steps.Command
import SplQuery.Proofs.Steps.Ends
import SplQuery.Proofs.Steps.Expression
import SplQuery.Proofs.Steps.Parts
import SplQuery.Proofs.Steps.Pipeline
import SplQuery.Proofs.Steps.Primitive
import SplQuery.Proofs.Steps.Recovery
import SplQuery.Proofs.Steps.Search
import SplQuery.Proofs.Steps.State
import SplQuery.Proofs.Text.Positions
import SplQuery.Proofs.Trivia.Transparent
import SplQuery.Query.Command
import SplQuery.Query.Document
import SplQuery.Query.Expression
import SplQuery.Query.Options
import SplQuery.Query.Parse
import SplQuery.Query.Part
import SplQuery.Query.Pipeline
import SplQuery.Query.Record
import SplQuery.Record.Basic
import SplQuery.Record.Listing
import SplQuery.Regex.Basic
import SplQuery.Regex.CharSet
import SplQuery.Regex.Escape
import SplQuery.Regex.GroupNames
import SplQuery.Regex.Read
import SplQuery.Regex.Reader
import SplQuery.Report.Canvas
import SplQuery.Report.Draw
import SplQuery.Report.Mark
import SplQuery.Report.Source
import SplQuery.Report.Window
import SplQuery.Report.Write
import SplQuery.Text.Alphabet
import SplQuery.Text.Characters
import SplQuery.Text.Columns
import SplQuery.Text.Escaped
import SplQuery.Text.Location
import SplQuery.Text.Printable
import SplQuery.Text.Quoted
import SplQuery.Text.Span
import SplQuery.Tree.Basic
import SplQuery.Tree.Dump
import SplQuery.Tree.Placed
import SplQuery.Tree.View
