import MagmaTrace.Number.Binary64
import MagmaTrace.Term.Basic
import MagmaTrace.Text.Cut

/-! # Lines within a width

A side of an equation that is too wide is broken at its operation signs: each line takes as
many parts as fit and goes on in the next. An equation that is too wide is broken after its
equals sign. A width is an integer, but a limit is any number.
-/

namespace MagmaTrace.Layout

open Text

/-- Whether a text is no wider than a limit. -/
def fits (limit : Signed) (text : Text) : Bool := limit.atLeast text.length

/-- Fill lines with parts from left to right; `line` is the line that has been begun. -/
def fill (limit : Signed) (line : Text) : List Text → List Text
  | [] => [line]
  | part :: parts =>
    let longer := line ++ lit " ◇ " ++ part
    if fits limit longer then fill limit longer parts else line :: fill limit part parts

/-- The parts of a text between its operation signs. -/
def parts (text : Text) : List Text := (splitAt Term.diamond text).map trim

/-- The lines that a side is broken into. -/
def sideLines (limit : Signed) (text : Text) : List Text :=
  let text := trim text
  if fits limit text then [text]
  else match parts text with
    | [] => []
    | first :: more => fill limit first more

/-- A side of an equation within a limit; lines after the first are indented. -/
def wrapSide (text indent : Text) (limit : Signed) : Text :=
  join (newline :: indent) (sideLines limit text)

/-- An equation within a limit, broken after the equals sign if need be. -/
def equationBody (lhs rhs indent : Text) (limit : Signed) : Text :=
  let full := lhs ++ lit " = " ++ rhs
  if fits limit full then full else lhs ++ lit " =" ++ newline :: indent ++ rhs

end MagmaTrace.Layout
