import Mathlib.Data.List.Induction
import MagmaTrace.Proofs.Case
import MagmaTrace.Proofs.Solid
import MagmaTrace.Text.Decimal

/-! # Decimal forms

The decimal form of a number is a run of digits, and the only such run without leading zeros
that denotes the number.
-/

namespace MagmaTrace.Text

theorem isDigit_digit {n : Nat} (h : n < 10) : isDigit (digit n) = true := by
  have value := digitValue_digit h
  rw [isDigit_iff]
  unfold digitValue at value
  have unit : (digit n).toNat = 48 + n := by
    unfold digit
    simp only [Nat.toUInt16, UInt16.toNat_ofNat']
    omega
  omega

theorem decimal_ne_nil (n : Nat) : decimal n ≠ [] := by
  rw [decimal]
  split
  · exact List.cons_ne_nil _ _
  · exact List.append_ne_nil_of_right_ne_nil _ (List.cons_ne_nil _ _)

theorem isDigit_of_mem_decimal (n : Nat) : ∀ u ∈ decimal n, isDigit u = true := by
  induction n using Nat.strongRecOn with
  | ind n ih =>
      intro u mem
      rw [decimal] at mem
      split at mem
      · next small =>
          rw [List.mem_singleton.mp mem]
          exact isDigit_digit small
      · next large =>
          rcases List.mem_append.mp mem with earlier | last
          · exact ih (n / 10) (by omega) u earlier
          · rw [List.mem_singleton.mp last]
            exact isDigit_digit (Nat.mod_lt _ (by decide))

theorem toNat_le_of_isDigit {u : CodeUnit} (h : isDigit u = true) : u.toNat ≤ 57 :=
  ((isDigit_iff u).mp h).2

theorem lowerLetters_digits {digits : Text} (all : ∀ u ∈ digits, isDigit u = true) :
    lowerLetters digits = digits := by
  have left : ∀ u ∈ digits, lowerLetter u = u := by
    intro u mem
    have small := toNat_le_of_isDigit (all u mem)
    exact (lowerLetter_cases u).resolve_right (by omega)
  rw [lowerLetters, List.map_congr_left left, List.map_id']

theorem isAscii_digits {digits : Text} (all : ∀ u ∈ digits, isDigit u = true) : IsAscii digits :=
  fun u mem => Nat.lt_of_le_of_lt (toNat_le_of_isDigit (all u mem)) (by decide)

/-- Digits stay as they are after a lead that is written in lower case. -/
theorem lower_numbered {lead digits : Text} (ascii : IsAscii lead)
    (all : ∀ u ∈ digits, isDigit u = true) :
    lower (lead ++ digits) = lowerLetters lead ++ digits := by
  have whole : IsAscii (lead ++ digits) := fun u mem =>
    (List.mem_append.mp mem).elim (ascii u) (isAscii_digits all u)
  rw [lower_of_isAscii whole, lowerLetters_append, lowerLetters_digits all]

theorem digit_digitValue {u : CodeUnit} (h : isDigit u = true) : digit (digitValue u) = u := by
  obtain ⟨low, high⟩ := (isDigit_iff u).mp h
  apply UInt16.toNat_inj.mp
  unfold digit digitValue
  simp only [Nat.toUInt16, UInt16.toNat_ofNat']
  omega

theorem digitValue_lt {u : CodeUnit} (h : isDigit u = true) : digitValue u < 10 := by
  have := (isDigit_iff u).mp h
  unfold digitValue
  omega

theorem ofDigits_append_singleton (digits : Text) (u : CodeUnit) :
    ofDigits (digits ++ [u]) = ofDigits digits * 10 + digitValue u := by
  simp [ofDigits, ofDigitsFrom]

/-- A nonempty run of digits that starts with a zero only when it is that zero. -/
structure IsPlain (digits : Text) : Prop where
  nonempty : digits ≠ []
  allDigits : ∀ u ∈ digits, isDigit u = true
  noLeadingZero : digits.head? = some (digit 0) → digits = [digit 0]

theorem decimal_ofDigits {digits : Text} (h : IsPlain digits) :
    decimal (ofDigits digits) = digits := by
  induction digits using List.reverseRecOn with
  | nil => exact absurd rfl h.nonempty
  | append_singleton before u ih =>
      have last : isDigit u = true := h.allDigits u (List.mem_append_right _ (List.mem_singleton_self u))
      have small := digitValue_lt last
      rw [ofDigits_append_singleton]
      by_cases only : before = []
      · subst only
        rw [decimal, if_pos (by simpa [ofDigits, ofDigitsFrom] using small)]
        simp [ofDigits, ofDigitsFrom, digit_digitValue last]
      · have first : (before ++ [u]).head? = before.head? := by
          rw [List.head?_append, Option.or_of_isSome (List.isSome_head?.mpr only)]
        have notZero : before.head? ≠ some (digit 0) := by
          intro zero
          have alone := congrArg List.length (h.noLeadingZero (first.trans zero))
          have longer := List.length_pos_iff.mpr only
          simp only [List.length_append, List.length_singleton] at alone
          omega
        have plain : IsPlain before :=
          ⟨only, fun v mem => h.allDigits v (List.mem_append_left _ mem),
            fun zero => absurd zero notZero⟩
        have form := ih plain
        have positive : ofDigits before ≠ 0 := by
          intro zero
          rw [zero, decimal, if_pos (by decide)] at form
          exact notZero (congrArg List.head? form.symm)
        have parts : (ofDigits before * 10 + digitValue u) / 10 = ofDigits before ∧
            (ofDigits before * 10 + digitValue u) % 10 = digitValue u := by omega
        rw [decimal, if_neg (by omega), parts.1, parts.2, form, digit_digitValue last]

end MagmaTrace.Text
