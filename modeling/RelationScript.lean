import RelationScript.Calendar.Date
import RelationScript.Calendar.Reading
import RelationScript.Cell
import RelationScript.Command.Access
import RelationScript.Command.Arguments
import RelationScript.Command.FileTree
import RelationScript.Command.Program
import RelationScript.Comparison
import RelationScript.Decimal.Basic
import RelationScript.Decimal.Reading
import RelationScript.Decimal.Scientific
import RelationScript.Document
import RelationScript.Evaluation
import RelationScript.Heading
import RelationScript.Job
import RelationScript.Json.Basic
import RelationScript.Json.Reading
import RelationScript.Json.Writing
import RelationScript.Main
import RelationScript.Manual
import RelationScript.Proofs.Outcome
import RelationScript.Proofs.Query.Brackets
import RelationScript.Proofs.Query.Grammar
import RelationScript.Proofs.Query.Parsing
import RelationScript.Proofs.Query.Sources
import RelationScript.Proofs.Query.Tokens
import RelationScript.Proofs.Relation.Qualification
import RelationScript.Proofs.Relation.WellFormed
import RelationScript.Proofs.Script.Agreement
import RelationScript.Proofs.Script.Faults
import RelationScript.Proofs.Script.Headings
import RelationScript.Proofs.Script.Runs
import RelationScript.Proofs.Script.WellFormed
import RelationScript.Query.Basic
import RelationScript.Query.Reading
import RelationScript.Relation.Basic
import RelationScript.Relation.Combination
import RelationScript.Relation.Product
import RelationScript.Relation.Projection
import RelationScript.Relation.Record
import RelationScript.Relation.Selection
import RelationScript.Script
import RelationScript.SetOperator
import RelationScript.Store
import RelationScript.Table
import RelationScript.Text.Blank
import RelationScript.Text.Digits
import RelationScript.Text.Folding
import RelationScript.Text.Lines
import RelationScript.Text.Name
import RelationScript.Token.Basic
import RelationScript.Token.Scan
import RelationScript.Token.Span
import RelationScript.Proofs.Token.Spelling
import RelationScript.Proofs.Token.Tiling
import RelationScript.Proofs.Decimal.Value
import RelationScript.Proofs.Relation.Equality
import RelationScript.Proofs.Script.Scales
import RelationScript.Proofs.Relation.Distinct
import RelationScript.Proofs.Script.Dedup
import RelationScript.Proofs.Query.Writing
import RelationScript.Proofs.Relation.Columns
import RelationScript.Proofs.Script.Addressing
import RelationScript.Proofs.Calendar.Writing
import RelationScript.Proofs.Document.Dumping
import RelationScript.Proofs.Script.Checks
import RelationScript.Proofs.Query.Spacing
import RelationScript.Proofs.Relation.Inclusion
import RelationScript.Proofs.Script.RowSets
import RelationScript.Proofs.Script.DuplicateFree
import RelationScript.Proofs.Script.Independence
import RelationScript.Proofs.Query.Rewording
import RelationScript.Proofs.Query.Alike
import RelationScript.Proofs.Query.Literals
import RelationScript.Proofs.Relation.Naming
import RelationScript.Proofs.Relation.Occurrences
import RelationScript.Proofs.Relation.Trichotomy
import RelationScript.Proofs.Script.Substitution
import RelationScript.Proofs.Relation.SetLaws
import RelationScript.Proofs.Relation.Lookup
import RelationScript.Proofs.Relation.Conditions
import RelationScript.Proofs.Relation.Pushdown
import RelationScript.Proofs.Relation.ProjectionLaws
import RelationScript.Proofs.Script.Monotone
import RelationScript.Proofs.Token.Runs
import RelationScript.Proofs.Query.SourceTexts
import RelationScript.Proofs.Query.Rendering
import RelationScript.Proofs.Relation.Faults
import RelationScript.Proofs.Script.Brackets
import RelationScript.Proofs.Script.Numbers
import RelationScript.Proofs.Decimal.Overflow
import RelationScript.Proofs.Token.Faults
import RelationScript.Proofs.Token.FirstFault
import RelationScript.Proofs.Script.Positions
import RelationScript.Proofs.Relation.Labels
import RelationScript.Proofs.Document.Rejection
import RelationScript.Proofs.Document.Loading
import RelationScript.Proofs.Document.Names
import RelationScript.Proofs.Calendar.Spelling
import RelationScript.Proofs.Document.Days
import RelationScript.Proofs.Document.Views
import RelationScript.Proofs.Text.Trimming
import RelationScript.Proofs.Table.Alignment
import RelationScript.Query.Tape
import RelationScript.Proofs.Query.InPlace
import RelationScript.Proofs.Query.Calls
