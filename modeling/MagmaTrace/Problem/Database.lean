import MagmaTrace.Number.Numeral
import MagmaTrace.Registry
import MagmaTrace.Text.Cut

/-! # The equation database

A source of the database defines equations as `equation <number> := <equation>`; a definition
goes on over the following lines up to the next. The last definition of a number counts.
-/

namespace MagmaTrace

open Text

/-- The equations of a database by number. -/
abbrev EquationIndex := Registry Numeral Text

namespace EquationIndex

/-- An equation that is being read: its number and the pieces of its text so far. -/
structure Definition where
  number : Numeral
  pieces : List Text

/-- The number and the text of a definition, with single spaces between its pieces. -/
def Definition.entry (d : Definition) : Numeral × Text :=
  (d.number, trim (join (lit " ") d.pieces))

/-- The definition that a line begins. -/
def start? (line : Text) : Option Definition := do
  let (digits, rest) ← run? isDigit (← skipSomeBlanks? (← strip? (lit "equation") line))
  let body ← strip? (lit ":=") (skipBlanks rest)
  return ⟨Numeral.ofDigits digits, [trim body]⟩

/-- The definitions on some lines without white space around them, the first of which may go
    on with one already begun. -/
def definitions : Option Definition → List Text → List (Numeral × Text)
  | begun, [] => begun.toList.map Definition.entry
  | begun, line :: rest =>
    match start? line with
    | some d => begun.toList.map Definition.entry ++ definitions (some d) rest
    | none =>
      if line = [] then definitions begun rest
      else definitions (begun.map fun d => { d with pieces := d.pieces ++ [line] }) rest

/-- The definitions of a source. -/
def definitionsIn (source : Text) : List (Numeral × Text) :=
  definitions none ((lines source).map trim)

/-- The index of some sources. -/
def ofSources (sources : List Text) : EquationIndex :=
  Registry.ofList (sources.flatMap definitionsIn)

/-- Whether a file of this name is a source of the database. -/
def isSourceName (name : Text) : Bool :=
  match strip? (lit "Eqns") name with
  | none => false
  | some rest => endsWith (lit ".lean") rest && !name.any isLineEnd

end EquationIndex

end MagmaTrace
