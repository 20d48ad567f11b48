import MagmaTrace.Number.Shortest

/-! # Numerals

A run of decimal digits stands for the double-precision number nearest to it. Below 2^53 that
is the number itself, so distinct numerals without leading zeros stay distinct there.
-/

namespace MagmaTrace

open Text

/-- The value of a run of digits. -/
inductive Numeral where
  | finite (value : Nat)
  | infinite
  deriving DecidableEq

namespace Numeral

/-- The numeral of an integer. -/
def ofNat (n : Nat) : Numeral :=
  if n < Nat.pow 2 53 then finite n
  else match Binary64.ofRatio n 1 with
    | .finite m q => finite (m * Nat.pow 2 q.toNat)
    | .infinite => infinite

/-- The numeral that a run of digits denotes. -/
def ofDigits (digits : Text) : Numeral := ofNat (Text.ofDigits digits)

/-- The text of a numeral: all digits below 2^53, from there on the shortest that read back. -/
def text : Numeral → Text
  | infinite => lit "Infinity"
  | finite n => if n < Nat.pow 2 53 then decimal n else (Binary64.ofRatio n 1).text

/-- The numeral as a float. -/
def toFloat : Numeral → Float
  | finite n => n.toFloat
  | infinite => 1.0 / 0.0

end Numeral

end MagmaTrace
