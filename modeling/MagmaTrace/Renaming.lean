import MagmaTrace.Expression
import MagmaTrace.Registry
import MagmaTrace.Text.Case
import MagmaTrace.Text.Order

/-! # Renaming variables to their ranks

The variables of one expression are renamed to x0, x1, … in the order of their lower-case
spellings, so that `X` and `x` are the same variable: this is what lets the constants of a
proof (a, b) stand for the variables of its statement (A, B). The operation's name `op` is no
variable. A renaming belongs to one expression.
-/

namespace MagmaTrace

open Text

/-- A renaming takes lower-case names to new names. -/
abbrev Renaming := Registry Text Text

namespace Renaming

/-- The name that is kept for the operation. -/
def operation : Text := lit "op"

/-- The distinct lower-case forms of some names in increasing order, without the operation's. -/
def canonicalOrder (names : List Text) : List Text :=
  sort (firstMentions ((names.map lower).filter (· ≠ operation)))

/-- The name of the variable of a given rank. -/
def rankName (rank : Nat) : Text := lit "x" ++ decimal rank

/-- The renaming that takes each of some names to the name of its rank. -/
def ofNames (names : List Text) : Renaming :=
  Registry.ofList ((canonicalOrder names).mapIdx fun rank name => (name, rankName rank))

/-- The new names in order of rank. -/
def vars (r : Renaming) : List Text := r.values

/-- The new name of a name in any case; a name without one is kept. -/
def apply (r : Renaming) (name : Text) : Text := (r.get? (lower name)).getD name

/-- The renaming in which an expression is written. -/
def scope (e : Expression) : Renaming := ofNames e.names

end Renaming

/-! ## Renaming in plain text -/

/-- A part of a text: a name, or a unit that belongs to none. -/
inductive Piece where
  | name (text : Text)
  | other (u : CodeUnit)
  deriving DecidableEq

namespace Piece

/-- Cut a text into its names and the units between them. A name is a letter and all the word
    units after it. -/
def cut : Text → List Piece
  | [] => []
  | u :: rest =>
    if isLetter u then name (u :: rest.takeWhile isWord) :: cut (rest.dropWhile isWord)
    else other u :: cut rest
termination_by text => text.length
decreasing_by
  · exact Nat.lt_succ_of_le (length_dropWhile_le isWord rest)
  · simp

def name? : Piece → Option Text
  | name text => some text
  | other _ => none

/-- The text of a piece, a name being changed. -/
def write (f : Text → Text) : Piece → Text
  | name text => f text
  | other u => [u]

end Piece

/-- The names in a text from left to right, with repetitions. -/
def namesIn (text : Text) : List Text := (Piece.cut text).filterMap Piece.name?

namespace Renaming

/-- Rename the names in a text and leave all else as it is. -/
def applyText (r : Renaming) (text : Text) : Text := (Piece.cut text).flatMap (Piece.write r.apply)

/-- Rename the names of a text to their ranks within it; also the new names in order. -/
def normalize (text : Text) : Text × List Text :=
  let r := ofNames (namesIn text)
  (r.applyText text, r.vars)

end Renaming

end MagmaTrace
