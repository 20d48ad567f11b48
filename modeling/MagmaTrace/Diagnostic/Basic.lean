import MagmaTrace.Text.Cut
import MagmaTrace.Text.Decimal

/-! # Diagnostics

A diagnostic says what went wrong and where. It is what a failure is shown as; the
failures themselves are types of their own and become diagnostics only at the end.
-/

namespace MagmaTrace

open Text

/-- The place of a failure: offsets into the text that was read, and the line when known. -/
structure Span where
  start : Nat
  stop : Nat
  line : Option Nat
  column : Option Nat
  deriving DecidableEq

namespace Span

/-- Lines are counted from one: one more than the line feeds before the offset. -/
def lineOf (text : Text) (offset : Nat) : Nat := 1 + (text.take offset).count newline

/-- Columns are counted from one after the last line feed before the offset. A text that
    begins with a line feed has column zero at its start. -/
def columnOf (text : Text) (offset : Nat) : Nat :=
  offset + 1 - (dropEndWhile (· != newline) (text.take (max offset 1))).length

/-- The span of the single unit at an offset. -/
def point (text : Text) (offset : Nat) : Span :=
  { start := offset
    stop := offset + 1
    line := some (lineOf text offset)
    column := some (columnOf text offset) }

end Span

/-- The kinds of failure that a reader of the output can tell apart. -/
inductive Code where
  | parse
  | missingDependency
  | missingRecord
  | config
  | io
  deriving DecidableEq

/-- The word that stands for a kind of failure in the output. -/
def Code.word : Code → Text
  | .parse => lit "PARSE_ERROR"
  | .missingDependency => lit "MISSING_DEPENDENCY"
  | .missingRecord => lit "MISSING_TOP_LEVEL_RECORD"
  | .config => lit "CONFIG_ERROR"
  | .io => lit "IO_ERROR"

/-- A failure as it is shown. The type of the further details is left open. -/
structure Diagnostic (δ : Type) where
  code : Code
  message : Text
  span : Option Span
  suggestion : Option Text
  context : Option Text
  details : Option δ
  deriving DecidableEq

namespace Diagnostic

variable {δ ε : Type}

/-- Change the details. -/
def mapDetails (f : δ → ε) (d : Diagnostic δ) : Diagnostic ε :=
  { d with details := d.details.map f }

/-- Anchor a diagnostic on a line of the transcript: offsets are kept, the line's number
    and text are added. Without offsets the whole line is meant. -/
def atLine (d : Diagnostic δ) (line : Nat) (source : Text) : Diagnostic δ :=
  { d with
    message := lit "Line " ++ decimal line ++ lit ": " ++ d.message
    span := some (match d.span with
      | some span => { span with line := some line }
      | none => { start := 0, stop := source.length, line := some line, column := none })
    context := some source }

/-- The texts that are worth stating: an empty suggestion or context is left out. -/
def stated (d : Diagnostic δ) : Diagnostic δ :=
  { d with
    suggestion := d.suggestion.filter (· ≠ [])
    context := d.context.filter (· ≠ []) }

/-- The diagnostic on one line with its place, then the context and the suggestion, each on
    a line of its own. -/
def render (d : Diagnostic δ) : Text :=
  let place := match d.span with
    | some span => lit " (offset " ++ decimal span.start ++ lit ")"
    | none => []
  let head := lit "[" ++ d.code.word ++ lit "] " ++ d.message ++ place
  let context := d.stated.context.toList.map (lit "  at: " ++ ·)
  let hint := d.stated.suggestion.toList.map (lit "  hint: " ++ ·)
  joinLines (head :: context ++ hint)

end Diagnostic

end MagmaTrace
