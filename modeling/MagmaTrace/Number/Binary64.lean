/-! # Numbers of 53 significant bits

The double-precision numbers, as exact integers times powers of two. A number that is not
one of them is rounded to the nearest, a tie to the one with the even significand; what is
too large becomes infinite. Everything here is integer arithmetic, and powers are those of
`Nat.pow`.
-/

namespace MagmaTrace

/-- A double-precision number without its sign. -/
inductive Binary64 where
  /-- The number `significand * 2 ^ exponent`. -/
  | finite (significand : Nat) (exponent : Int)
  | infinite
  deriving DecidableEq

namespace Binary64

/-- The exponent of the smallest positive number, which no significand goes below. -/
def leastExponent : Int := -1074

/-- The largest exponent of a significand of 53 bits. -/
def greatestExponent : Int := 971

/-- The nearest integer to `num / den`, a half going to the even neighbour. -/
def roundHalfEven (num den : Nat) : Nat :=
  let q := num / den
  let r := num % den
  if 2 * r < den ∨ (2 * r = den ∧ q % 2 = 0) then q else q + 1

/-- The nearest integer to `num / den`, a half going up. -/
def roundHalfUp (num den : Nat) : Nat := (2 * num + den) / (2 * den)

/-- The quotient `num / (den * 2 ^ e)` as one of integers. -/
def scale (num den : Nat) (e : Int) : Nat × Nat :=
  if 0 ≤ e then (num, den * Nat.pow 2 e.toNat) else (num * Nat.pow 2 (-e).toNat, den)

/-- The exponent of the largest power of two that is not above `num / den`. -/
def floorLog2 (num den : Nat) : Int :=
  let e : Int := num.log2 - den.log2
  let (a, b) := scale num den e
  if b ≤ a then e else e - 1

/-- The number nearest to `num / den`. -/
def ofRatio (num den : Nat) : Binary64 :=
  if num = 0 then finite 0 leastExponent
  else
    let q := max (floorLog2 num den - 52) leastExponent
    let (a, b) := scale num den q
    let m := roundHalfEven a b
    let (m, q) := if m = Nat.pow 2 53 then (Nat.pow 2 52, q + 1) else (m, q)
    if q ≤ greatestExponent then finite m q else infinite

/-- A finite number as a quotient of integers. -/
def toRatio (significand : Nat) (exponent : Int) : Nat × Nat := scale significand 1 (-exponent)

/-- The value, if it is an integer. -/
def toNat? : Binary64 → Option Nat
  | infinite => none
  | finite m q =>
    let (num, den) := toRatio m q
    if num % den = 0 then some (num / den) else none

/-- The number nearest to `digits * 10 ^ exponent`. Exponents far out of range are not
    multiplied out. -/
def ofDecimal (digits : Nat) (exponent : Int) : Binary64 :=
  let places := exponent + (Nat.log2 digits : Int) / 4
  if digits = 0 ∨ exponent + (Nat.log2 digits : Int) < -400 then finite 0 leastExponent
  else if 400 < places then infinite
  else if 0 ≤ exponent then ofRatio (digits * Nat.pow 10 exponent.toNat) 1
  else ofRatio digits (Nat.pow 10 (-exponent).toNat)

end Binary64

/-- A double-precision number with its sign. -/
structure Signed where
  negative : Bool
  size : Binary64
  deriving DecidableEq

namespace Signed

/-- The number that a float stands for; none for a float that is no number. -/
def ofFloat? (x : Float) : Option Signed :=
  let bits := x.toBits.toNat
  let negative := decide (Nat.pow 2 63 ≤ bits)
  let biased : Nat := bits / Nat.pow 2 52 % Nat.pow 2 11
  let fraction := bits % Nat.pow 2 52
  if biased = 2047 then
    if fraction = 0 then some ⟨negative, .infinite⟩ else none
  else if biased = 0 then some ⟨negative, .finite fraction Binary64.leastExponent⟩
  else some ⟨negative, .finite (Nat.pow 2 52 + fraction) ((biased : Int) - 1075)⟩

/-- The number nearest to an integer. -/
def ofNat (n : Nat) : Signed := ⟨false, .ofRatio n 1⟩

/-- Whether the number is no less than an integer. -/
def atLeast (s : Signed) (n : Nat) : Bool :=
  match s.size with
  | .infinite => !s.negative
  | .finite m q =>
    let (num, den) := Binary64.toRatio m q
    if s.negative then n == 0 && num == 0 else n * den ≤ num

/-- Whether the number is greater than zero. -/
def isPositive (s : Signed) : Bool := !s.negative && s.size.toNat? != some 0

end Signed

end MagmaTrace
