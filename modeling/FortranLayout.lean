import FortranLayout.CommandLine.Arguments
import FortranLayout.CommandLine.Parser
import FortranLayout.Comments
import FortranLayout.Conditional
import FortranLayout.Construct
import FortranLayout.Contains
import FortranLayout.Continuation.Alignment
import FortranLayout.Continuation.Anchor
import FortranLayout.Continuation.Markers
import FortranLayout.Continuation.Options
import FortranLayout.Continuation.Update
import FortranLayout.Data
import FortranLayout.Document
import FortranLayout.Element
import FortranLayout.EmptyLines
import FortranLayout.Environment
import FortranLayout.Expression
import FortranLayout.Fault
import FortranLayout.FileTree
import FortranLayout.Forest.Basic
import FortranLayout.Forest.Draft
import FortranLayout.Forest.Navigation
import FortranLayout.Forest.OfElement
import FortranLayout.Forest.OfEvents
import FortranLayout.Glob
import FortranLayout.InPlace
import FortranLayout.Indentation
import FortranLayout.Json.Element
import FortranLayout.Json.Parser
import FortranLayout.Json.Printer
import FortranLayout.Json.Token
import FortranLayout.Kind
import FortranLayout.LetterCase
import FortranLayout.Main
import FortranLayout.Normalization
import FortranLayout.Path
import FortranLayout.Run
import FortranLayout.Selection
import FortranLayout.Settings.Basic
import FortranLayout.Settings.Codec
import FortranLayout.Settings.Discovery
import FortranLayout.Settings.Fields
import FortranLayout.Settings.Load
import FortranLayout.Shape
import FortranLayout.Spacing.Gaps
import FortranLayout.Spacing.Keywords
import FortranLayout.Spacing.Pass
import FortranLayout.Spacing.Rules
import FortranLayout.Sum
import FortranLayout.Text.Affix
import FortranLayout.Text.Blank
import FortranLayout.Text.CaseMap
import FortranLayout.Text.CaseTable
import FortranLayout.Text.Decimal
import FortranLayout.Text.Membership
import FortranLayout.Text.Pattern
import FortranLayout.Text.Whitespace
import FortranLayout.Text.WordChar
import FortranLayout.Toml.DateTable
import FortranLayout.Toml.Merge
import FortranLayout.Toml.Parser
import FortranLayout.Toml.Quoted
import FortranLayout.Toml.Scalar
import FortranLayout.Toml.Table
import FortranLayout.Proofs.Forest.Edits
import FortranLayout.Proofs.Forest.Held
import FortranLayout.Proofs.Forest.OfElement
import FortranLayout.Proofs.Forest.Parents
import FortranLayout.Proofs.Forest.Acyclic
import FortranLayout.Proofs.Forest.Retailed
import FortranLayout.Proofs.Code
import FortranLayout.Proofs.Relaid
import FortranLayout.Proofs.SpacingLayout
import FortranLayout.Proofs.LineLayout
import FortranLayout.Proofs.LineStarts
import FortranLayout.Proofs.Markers.Revision
import FortranLayout.Proofs.Forest.Reshaped
import FortranLayout.Proofs.Markers.Refinement
import FortranLayout.Proofs.Markers.Insertion
import FortranLayout.Proofs.Conservation
import FortranLayout.Proofs.Markers.Removal
import FortranLayout.Proofs.Markers.Sweep
import FortranLayout.Proofs.Markers.DirectiveLines
import FortranLayout.Proofs.Markers.LineBegins
import FortranLayout.Proofs.Markers.Visits
import FortranLayout.Proofs.Markers.Undoing
import FortranLayout.Proofs.Markers.Idempotence
import FortranLayout.Proofs.Alignment.Margin
import FortranLayout.Proofs.Alignment.Refinement
import FortranLayout.Proofs.Alignment.Idempotence
import FortranLayout.Proofs.Alignment.Locality
import FortranLayout.Proofs.Alignment.Restriction
import FortranLayout.Proofs.IfConstructs.Conversion
import FortranLayout.Proofs.IfConstructs.Balance
import FortranLayout.Proofs.IfConstructs.Step
import FortranLayout.Proofs.IfConstructs.Refinement
import FortranLayout.Proofs.IfConstructs.Outcome
import FortranLayout.Proofs.Indentation.Levels
import FortranLayout.Proofs.Indentation.Refinement
import FortranLayout.Proofs.Indentation.Program
import FortranLayout.Proofs.Indentation.Bodies
import FortranLayout.Proofs.Indentation.Printer
import FortranLayout.Proofs.Spacing.Spread
import FortranLayout.Proofs.Spacing.Chain
import FortranLayout.Proofs.Spacing.Keywords
import FortranLayout.Proofs.Spacing.Punctuation
import FortranLayout.Proofs.Spacing.Slots
import FortranLayout.Proofs.Spacing.FirstRound
import FortranLayout.Proofs.Spacing.LaterRounds
import FortranLayout.Proofs.Forest.Ordered
import FortranLayout.Proofs.Spacing.Idempotence
import FortranLayout.Proofs.Indentation.Writes
import FortranLayout.Proofs.Indentation.DirectiveLines
import FortranLayout.Proofs.Spacing.Texts
import FortranLayout.Proofs.Spacing.KeywordsApart
import FortranLayout.Proofs.Forest.Index
import FortranLayout.Proofs.Events.Refinement
import FortranLayout.Proofs.Json.Lexing
import FortranLayout.Proofs.Json.Parsing
import FortranLayout.Proofs.Json.Document
import FortranLayout.Proofs.Normalization.Refusal
import FortranLayout.Proofs.Normalization.Unchanged
import FortranLayout.Proofs.Sums.Parentheses
import FortranLayout.Proofs.Comments.Removal
import FortranLayout.Proofs.Sums.Value
import FortranLayout.Proofs.Sums.Canonical
import FortranLayout.Proofs.Text.UpperCase
import FortranLayout.Proofs.Batch.Places
import FortranLayout.Proofs.Batch.Schedule
import FortranLayout.Proofs.Batch.Results
import FortranLayout.Proofs.Indentation.BaseLevel
import FortranLayout.Proofs.BlankLines
import FortranLayout.Proofs.Spacing.Delimiters
import FortranLayout.Proofs.Alignment.SharedColumn
import FortranLayout.Proofs.Spacing.AdjacentKeywords
import FortranLayout.Proofs.Toml.Paths
import FortranLayout.Proofs.Toml.DistinctKeys
import FortranLayout.Proofs.Toml.Merging
import FortranLayout.Proofs.Expressions
import FortranLayout.Proofs.Markers.RemoveAll
import FortranLayout.Proofs.Forest.Classified
