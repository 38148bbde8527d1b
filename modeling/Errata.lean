import Errata.Collection
import Errata.Command
import Errata.Diagnostic
import Errata.Document.Basic
import Errata.Document.Navigation
import Errata.Document.Position
import Errata.Document.Query
import Errata.Document.Tree
import Errata.Expression.Basic
import Errata.Expression.Figure
import Errata.Expression.Placed
import Errata.Expression.Reader
import Errata.FileTree
import Errata.Finding
import Errata.Grammar.Basic
import Errata.Grammar.Compile
import Errata.Grammar.Consistency
import Errata.Grammar.Matching
import Errata.Grammar.Reader
import Errata.Grammar.RightHandSide
import Errata.Grammar.Symbols
import Errata.Header
import Errata.Lint
import Errata.Loading
import Errata.Main
import Errata.Markup.Reader
import Errata.Markup.Tag
import Errata.Markup.Token
import Errata.Path
import Errata.Proofs.Collection
import Errata.Proofs.Collection.EarlyErrors
import Errata.Proofs.Collection.Likeness
import Errata.Proofs.Collection.Outcome
import Errata.Proofs.Collection.Preorder
import Errata.Proofs.Collection.Unclosed
import Errata.Proofs.Collection.Walker
import Errata.Proofs.Document.Changes
import Errata.Proofs.Document.Depiction
import Errata.Proofs.Document.Likeness
import Errata.Proofs.Document.Position
import Errata.Proofs.Document.Sources
import Errata.Proofs.Document.Traversal
import Errata.Proofs.Document.Tree
import Errata.Proofs.Document.WellFormed
import Errata.Proofs.Except
import Errata.Proofs.Expression.Figure
import Errata.Proofs.Expression.Order
import Errata.Proofs.Expression.Tiling
import Errata.Proofs.Expression.Tokens
import Errata.Proofs.Finding
import Errata.Proofs.Grammar.Alignment
import Errata.Proofs.Grammar.Consistency
import Errata.Proofs.Grammar.Definedness
import Errata.Proofs.Grammar.Faithful
import Errata.Proofs.Grammar.Ledger
import Errata.Proofs.Grammar.Loop
import Errata.Proofs.Grammar.Placement
import Errata.Proofs.Grammar.Preorder
import Errata.Proofs.Grammar.Productions
import Errata.Proofs.Grammar.RoundTrip
import Errata.Proofs.Grammar.Written
import Errata.Proofs.Header
import Errata.Proofs.Header.Brackets
import Errata.Proofs.Lint
import Errata.Proofs.Lint.Parts
import Errata.Proofs.Lint.Threaded
import Errata.Proofs.Loading.Completeness
import Errata.Proofs.Loading.Headers
import Errata.Proofs.Loading.Identity
import Errata.Proofs.Loading.Run
import Errata.Proofs.Markup.Graft
import Errata.Proofs.Markup.Lexeme
import Errata.Proofs.Markup.Lossless
import Errata.Proofs.Markup.Offsets
import Errata.Proofs.Markup.Reader
import Errata.Proofs.Markup.Spine
import Errata.Proofs.Markup.Token
import Errata.Proofs.Markup.Unclosed
import Errata.Proofs.Path
import Errata.Proofs.Report.Order
import Errata.Proofs.Scope.Annex
import Errata.Proofs.Scope.Closure
import Errata.Proofs.Scope.Entries
import Errata.Proofs.Scope.Hoisting
import Errata.Proofs.Scope.Introduction
import Errata.Proofs.Scope.Levels
import Errata.Proofs.Scope.Lifetime
import Errata.Proofs.Scope.Loop
import Errata.Proofs.Scope.Moments
import Errata.Proofs.Scope.Placement
import Errata.Proofs.Scope.Redeclaration
import Errata.Proofs.Scope.Strict
import Errata.Proofs.Slices.Checks
import Errata.Proofs.Slices.Expression
import Errata.Proofs.Slices.Grammar
import Errata.Proofs.Slices.Levels
import Errata.Proofs.Slices.Lint
import Errata.Proofs.Slices.Markup
import Errata.Proofs.Slices.Step
import Errata.Proofs.Slices.Text
import Errata.Proofs.Slices.Walk
import Errata.Proofs.Slices.Words
import Errata.Proofs.Spelling
import Errata.Proofs.Spelling.BlankLines
import Errata.Proofs.Step.Acceptance
import Errata.Proofs.Step.Cache
import Errata.Proofs.Step.Descent
import Errata.Proofs.Step.Faults
import Errata.Proofs.Step.Head
import Errata.Proofs.Step.Indentation
import Errata.Proofs.Step.Layout
import Errata.Proofs.Step.Nesting
import Errata.Proofs.Step.Placement
import Errata.Proofs.Style.Endings
import Errata.Proofs.Style.Placement
import Errata.Proofs.Text.Excerpt
import Errata.Proofs.Text.Lines
import Errata.Proofs.Text.Placement
import Errata.Report.Basic
import Errata.Report.Details
import Errata.Report.Json
import Errata.Report.Palette
import Errata.Report.Printer
import Errata.Rule
import Errata.Scope.Action
import Errata.Scope.Basic
import Errata.Scope.Phrase
import Errata.Scope.Reading
import Errata.Scope.Seeds
import Errata.Spelling
import Errata.Step.Basic
import Errata.Step.Cache
import Errata.Step.Head
import Errata.Step.Reader
import Errata.Style.Check
import Errata.Style.Problem
import Errata.Text.Alphabetic
import Errata.Text.Basic
import Errata.Text.Blank
import Errata.Text.Bounded
import Errata.Text.Cursor
import Errata.Text.Digit
import Errata.Text.Extending
import Errata.Text.Folding
import Errata.Text.Lines
import Errata.Text.Mark
import Errata.Text.Numeral
import Errata.Text.Occurrence
import Errata.Text.Position
import Errata.Text.Quoted
import Errata.Text.Ranges
import Errata.Text.Recent
import Errata.Text.Scan
import Errata.Text.Unprintable
import Errata.Text.Word
