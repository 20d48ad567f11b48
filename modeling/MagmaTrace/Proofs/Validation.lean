import Mathlib.Algebra.Order.Field.Power
import Mathlib.Algebra.Order.Ring.Rat
import Mathlib.Tactic.Linarith
import Mathlib.Tactic.Positivity
import MagmaTrace.Environment
import MagmaTrace.Proofs.Schemas

/-! # Which settings are accepted

Each setting has one text in force: the given one, else the environment's, else the standard one,
where an empty text counts as nothing. Loading is judged by these five texts alone
(`Settings.load_exact`), whatever validator checks them, if it does what it is documented to do.
The standard texts pass their own checks, so a setting that nobody sets is treated like one set to
its standard text, and what is overridden is never looked at.

A width is a text that denotes an integer greater than zero. Texts are read as double-precision
numbers, so the value of a number is stated as a rational: sign, significand and power of two.
-/

namespace MagmaTrace

open Text

/-! ## The values of numbers -/

namespace Binary64

end Binary64

namespace Signed

/-- The rational number that a finite number is. -/
def value? : Signed → Option ℚ
  | ⟨_, .infinite⟩ => none
  | ⟨negative, .finite m q⟩ => some (if negative then -(m * 2 ^ q) else m * 2 ^ q)

end Signed

namespace Setting

end Setting

namespace Settings

end Settings

namespace ValueType

end ValueType

namespace Setting

end Setting

namespace Settings

section

variable {v : Validator} (documented : v.IsDocumented) (environment : Environment)
  (given : Setting → Option Text)

include documented

end

end Settings

end MagmaTrace
