import MagmaTrace.Assignment
import MagmaTrace.Calc
import MagmaTrace.Command.Arguments
import MagmaTrace.Command.Basic
import MagmaTrace.Command.Run
import MagmaTrace.Command.Usage
import MagmaTrace.Command.Workplace
import MagmaTrace.Diagnostic.Basic
import MagmaTrace.Diagnostic.Hint
import MagmaTrace.Diagnostic.Kind
import MagmaTrace.Environment
import MagmaTrace.Expression
import MagmaTrace.Fault
import MagmaTrace.FileTree
import MagmaTrace.Layout
import MagmaTrace.Log.Entry
import MagmaTrace.Log.Summary
import MagmaTrace.Main
import MagmaTrace.Naming
import MagmaTrace.Number.Binary64
import MagmaTrace.Number.Literal
import MagmaTrace.Number.Numeral
import MagmaTrace.Number.Shortest
import MagmaTrace.Options
import MagmaTrace.Path
import MagmaTrace.Problem.Clause
import MagmaTrace.Problem.Database
import MagmaTrace.Problem.Generation
import MagmaTrace.Proofs.Citation
import MagmaTrace.Proofs.Coherence
import MagmaTrace.Proofs.Diamond
import MagmaTrace.Proofs.Discovery
import MagmaTrace.Proofs.InlineAxioms
import MagmaTrace.Proofs.Lines
import MagmaTrace.Proofs.Lookup
import MagmaTrace.Proofs.Names
import MagmaTrace.Proofs.Outcome
import MagmaTrace.Proofs.Precedence
import MagmaTrace.Proofs.Reference
import MagmaTrace.Proofs.Scan
import MagmaTrace.Proofs.Searching
import MagmaTrace.Proofs.Solid
import MagmaTrace.Proofs.Stages
import MagmaTrace.Proofs.StepLayout
import MagmaTrace.Proofs.Wrapping
import MagmaTrace.Registry
import MagmaTrace.Renaming
import MagmaTrace.Schema
import MagmaTrace.Script.Basic
import MagmaTrace.Script.Template
import MagmaTrace.Settings
import MagmaTrace.Term.Basic
import MagmaTrace.Term.Diamond
import MagmaTrace.Term.Reading
import MagmaTrace.Term.Token
import MagmaTrace.Term.Tptp
import MagmaTrace.Text.Basic
import MagmaTrace.Text.Case
import MagmaTrace.Text.CaseTable
import MagmaTrace.Text.Cut
import MagmaTrace.Text.Decimal
import MagmaTrace.Text.Order
import MagmaTrace.Transcript.Declaration
import MagmaTrace.Transcript.Dependency
import MagmaTrace.Transcript.Event
import MagmaTrace.Transcript.Records
import MagmaTrace.Transcript.Scanner
import MagmaTrace.Translation
import MagmaTrace.Proofs.Provenance
import MagmaTrace.Proofs.Collision
import MagmaTrace.Proofs.Digits
import MagmaTrace.Proofs.Case
import MagmaTrace.Proofs.Chaining
import MagmaTrace.Proofs.Numbering
import MagmaTrace.Proofs.BlockOrder
import MagmaTrace.Proofs.Ranks
import MagmaTrace.Proofs.Prefix
import MagmaTrace.Proofs.Offsets
import MagmaTrace.Proofs.Balance
import MagmaTrace.Proofs.Language
import MagmaTrace.Proofs.Parentheses
import MagmaTrace.Proofs.Statements
import MagmaTrace.Proofs.Formulas
import MagmaTrace.Proofs.Problems
import MagmaTrace.Proofs.Entries
import MagmaTrace.Proofs.Passages
import MagmaTrace.Proofs.Readback
import MagmaTrace.Proofs.Wording
import MagmaTrace.Proofs.Pieces
import MagmaTrace.Proofs.Normalization
import MagmaTrace.Proofs.Capture
import MagmaTrace.Proofs.Recasing
import MagmaTrace.Proofs.Appearance
import MagmaTrace.Proofs.Stability
import MagmaTrace.Proofs.Closing
import MagmaTrace.Proofs.Contents
import MagmaTrace.Proofs.Anchors
import MagmaTrace.Proofs.Margins
import MagmaTrace.Proofs.Slices
import MagmaTrace.Proofs.Delivery
import MagmaTrace.Proofs.Outline
import MagmaTrace.Proofs.Relocation
import MagmaTrace.Proofs.Counting
import MagmaTrace.Proofs.Idempotence
import MagmaTrace.Proofs.Steps
import MagmaTrace.Proofs.Spread
import MagmaTrace.Proofs.Implications
import MagmaTrace.Proofs.Sources
import MagmaTrace.Proofs.RoundTrip
import MagmaTrace.Proofs.Collecting
import MagmaTrace.Proofs.Retention
import MagmaTrace.Proofs.Endings
import MagmaTrace.Proofs.Greedy
import MagmaTrace.Proofs.ViablePrefix
import MagmaTrace.Proofs.TokenGrammar
import MagmaTrace.Proofs.Recognition
import MagmaTrace.Proofs.Completion
import MagmaTrace.Proofs.Ordering
import MagmaTrace.Proofs.Dependencies
import MagmaTrace.Proofs.Positions
import MagmaTrace.Proofs.Logs
import MagmaTrace.Proofs.Schemas
import MagmaTrace.Proofs.Validation
import MagmaTrace.Proofs.Slips
import MagmaTrace.Proofs.Strays
import MagmaTrace.Proofs.Tokenization
