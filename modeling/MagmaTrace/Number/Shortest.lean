import MagmaTrace.Number.Binary64
import MagmaTrace.Text.Decimal

/-! # The shortest decimal of a number

A double-precision number is written with the fewest digits that still read back as it, and
with the nearest such digits. The reals that read back form an interval around the number
that reaches half-way to its two neighbours.
-/

namespace MagmaTrace.Binary64

open Text

/-- The least `j` below a bound with `den ≤ num * 10 ^ j`. -/
def leadingZeros (num den : Nat) : (bound : Nat) → Nat
  | 0 => 0
  | bound + 1 => if den ≤ num then 0 else leadingZeros (num * 10) den bound + 1

/-- The position of the decimal point before which the first digit of `num / den` stands. -/
def decimalPoint (num den : Nat) : Int :=
  if den ≤ num then (decimal (num / den)).length else 1 - (leadingZeros num den 400 : Int)

/-- The power `10 ^ e` as a quotient. -/
def powerOfTen (e : Int) : Nat × Nat :=
  if 0 ≤ e then (Nat.pow 10 e.toNat, 1) else (1, Nat.pow 10 (-e).toNat)

/-- The interval of the reals that read back as a number, in quarters of its last place:
    the two ends and whether they belong to it. -/
structure Reach where
  low : Nat
  high : Nat
  closed : Bool

/-- The reach of a number. It is narrower below a power of two. -/
def reach (m : Nat) (q : Int) : Reach :=
  { low := if m = Nat.pow 2 52 ∧ leastExponent < q then 4 * m - 1 else 4 * m - 2
    high := 4 * m + 2
    closed := m % 2 == 0 }

/-- Whether `num / den` lies within a reach whose quarters are `unitNum / unitDen`. -/
def Reach.holds (r : Reach) (unitNum unitDen num den : Nat) : Bool :=
  let x := num * unitDen
  let low := r.low * unitNum * den
  let high := r.high * unitNum * den
  if r.closed then low ≤ x && x ≤ high else low < x && x < high

/-- A decimal of at most `count` digits before a point: its digits without trailing zeros, and
    the point. One digit too many, from rounding up to a power of ten, moves the point. -/
def settle (count n : Nat) (point : Int) : Text × Int :=
  let digits := decimal n
  ((digits.reverse.dropWhile (· == digit 0)).reverse, point + ((digits.length : Int) - count))

/-- The nearest decimal with `count` digits that reads back as `m * 2 ^ q`, if there is one:
    the digits `d₁d₂…` and the point of `0.d₁d₂… * 10 ^ point`. -/
def nearestWith? (m : Nat) (q : Int) (count : Nat) : Option (Text × Int) :=
  let (num, den) := toRatio m q
  let (unitNum, unitDen) := toRatio 1 (q - 2)
  let point := decimalPoint num den
  let (stepNum, stepDen) := powerOfTen (point - count)
  let below := num * stepDen / (den * stepNum)
  let reads (n : Nat) : Bool := (reach m q).holds unitNum unitDen (n * stepNum) stepDen
  let twice := 2 * num * stepDen
  let middle := (2 * below + 1) * den * stepNum
  let belowFirst := twice < middle || (twice == middle && below % 2 == 0)
  let (first, second) := if belowFirst then (below, below + 1) else (below + 1, below)
  if reads first then some (settle count first point)
  else if reads second then some (settle count second point)
  else none

/-- The answer for the least digit count from `count` on that has one. -/
def shortestFrom (m : Nat) (q : Int) (count : Nat) : (more : Nat) → Text × Int
  | 0 => (nearestWith? m q count).getD ([], 0)
  | more + 1 => (nearestWith? m q count).getD (shortestFrom m q (count + 1) more)

/-- The digits of the shortest decimal of a positive number and its point. Seventeen digits
    always read back. -/
def shortest (m : Nat) (q : Int) : Text × Int := shortestFrom m q 1 16

/-- How a decimal is laid out: positional up to `positionalMax` places before the point and
    down to `positionalMin` zeros after it, else with an exponent. -/
structure Style where
  positionalMax : Int
  positionalMin : Int

/-- Numbers below 10^21 and from 10^-6 on are positional. -/
def Style.standard : Style := ⟨21, -6⟩

/-- A decimal with its point at a given place. -/
def Style.write (style : Style) (digits : Text) (point : Int) : Text :=
  let zeros (n : Int) : Text := List.replicate n.toNat (digit 0)
  if digits.length ≤ point ∧ point ≤ style.positionalMax then
    digits ++ zeros (point - digits.length)
  else if 0 < point ∧ point ≤ style.positionalMax then
    digits.take point.toNat ++ lit "." ++ digits.drop point.toNat
  else if style.positionalMin < point ∧ point ≤ 0 then lit "0." ++ zeros (-point) ++ digits
  else
    let mantissa := match digits with
      | [] => []
      | [d] => [d]
      | d :: more => d :: lit "." ++ more
    let exponent := point - 1
    mantissa ++ lit "e" ++ (if exponent < 0 then lit "-" else lit "+") ++ decimal exponent.natAbs

/-- The shortest text of a number. -/
def text : Binary64 → Text
  | infinite => lit "Infinity"
  | finite 0 _ => lit "0"
  | finite m q => let (digits, point) := shortest m q; Style.standard.write digits point

/-- The shortest text of a float; zero has no sign. -/
def floatText (x : Float) : Text :=
  match Signed.ofFloat? x with
  | none => lit "NaN"
  | some ⟨negative, b⟩ =>
    if negative ∧ b ≠ finite 0 leastExponent then lit "-" ++ b.text else b.text

/-- A float with two places after the point: the exact value is rounded, a half away from
    zero. From 10^21 on the shortest text is given. -/
def twoPlaces (x : Float) : Text :=
  match Signed.ofFloat? x with
  | none => lit "NaN"
  | some ⟨_, infinite⟩ => floatText x
  | some ⟨negative, finite m q⟩ =>
    let (num, den) := toRatio m q
    if Nat.pow 10 21 * den ≤ num then floatText x
    else
      let hundredths := roundHalfUp (100 * num) den
      let sign := if negative ∧ m ≠ 0 then lit "-" else []
      sign ++ decimal (hundredths / 100) ++ lit "." ++
        [digit (hundredths / 10 % 10), digit (hundredths % 10)]

end MagmaTrace.Binary64
