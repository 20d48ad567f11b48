import MagmaTrace.Number.Binary64
import MagmaTrace.Text.Basic

/-! # Options of a translation -/

namespace MagmaTrace

/-- What the writer of a script can be asked for. -/
structure Options where
  /-- The width within which equations and the sides of steps are kept. -/
  maxLineLength : Signed
  /-- The tactic that closes steps and lemmas. -/
  tactic : Text
  /-- The name that the theorem gives to its hypothesis. -/
  hypothesisName : Text
  deriving DecidableEq

namespace Options

/-- The options in force when nothing is asked for. -/
def standard : Options := ⟨.ofNat 80, lit "duper", lit "op_law"⟩

/-- The options with what is left open taken from the standard ones. -/
def resolve (maxLineLength : Option Signed) (tactic hypothesisName : Option Text) : Options :=
  { maxLineLength := maxLineLength.getD standard.maxLineLength
    tactic := tactic.getD standard.tactic
    hypothesisName := hypothesisName.getD standard.hypothesisName }

end Options

end MagmaTrace
