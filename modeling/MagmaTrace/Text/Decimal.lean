import MagmaTrace.Text.Basic

/-! # Decimal numbers

Main statement: reading the digits of a number gives the number back (`ofDigits_decimal`),
so the written forms of different numbers differ.
-/

namespace MagmaTrace.Text

/-- The digit of a number below ten. -/
def digit (n : Nat) : CodeUnit := (0x30 + n).toUInt16

/-- The value of a digit. -/
def digitValue (u : CodeUnit) : Nat := u.toNat - 0x30

/-- The decimal digits of a number, without leading zeros. -/
def decimal (n : Nat) : Text :=
  if n < 10 then [digit n] else decimal (n / 10) ++ [digit (n % 10)]
termination_by n
decreasing_by omega

/-- The number that a run of digits denotes in a given base, after digits worth `value`. -/
def ofDigitsFrom (base : Nat) (value : Nat) (digits : Text) : Nat :=
  digits.foldl (fun v u => v * base + digitValue u) value

/-- The number that a run of decimal digits denotes. -/
def ofDigits (digits : Text) : Nat := ofDigitsFrom 10 0 digits

/-- The decimal form of an integer, with a minus sign when it is negative. -/
def integer (i : Int) : Text :=
  if i < 0 then (0x2D : CodeUnit) :: decimal i.natAbs else decimal i.natAbs

theorem digitValue_digit {n : Nat} (h : n < 10) : digitValue (digit n) = n := by
  unfold digitValue digit
  simp only [Nat.toUInt16, UInt16.toNat_ofNat']
  omega

theorem ofDigits_decimal (n : Nat) : ofDigits (decimal n) = n := by
  induction n using Nat.strongRecOn with
  | ind n ih =>
    rw [decimal]
    split
    · next h => simp [ofDigits, ofDigitsFrom, digitValue_digit h]
    · next h =>
      have step := ih (n / 10) (by omega)
      simp only [ofDigits, ofDigitsFrom] at step ⊢
      rw [List.foldl_append, step]
      simp only [List.foldl_cons, List.foldl_nil]
      rw [digitValue_digit (by omega)]
      omega

end MagmaTrace.Text
