import MagmaTrace.Number.Binary64
import MagmaTrace.Text.Cut
import MagmaTrace.Text.Decimal

/-! # Numbers given as text

A number is written in decimal, with an optional sign, fraction and exponent, or in base 2, 8
or 16 after `0b`, `0o` or `0x`. White space around it does not count, and nothing but white
space is zero.
-/

namespace MagmaTrace.Signed

open Text

/-- The value of a digit in any base up to sixteen. -/
def digitValue? (u : CodeUnit) : Option Nat :=
  if isDigit u then some (u.toNat - 0x30)
  else if 0x61 ≤ u && u ≤ 0x66 then some (u.toNat - 0x61 + 10)
  else if 0x41 ≤ u && u ≤ 0x46 then some (u.toNat - 0x41 + 10)
  else none

/-- The number that digits in a base denote after digits worth `value`. -/
def digitsFrom? (base value : Nat) : Text → Option Nat
  | [] => some value
  | u :: rest => do
    let d ← digitValue? u
    if d < base then digitsFrom? base (value * base + d) rest else none

/-- The base that a beginning calls for, with the digits after it. -/
def based? (text : Text) : Option (Nat × Text) :=
  match text with
  | zero :: mark :: digits =>
    if zero ≠ '0' ∨ digits = [] then none
    else if mark = 'x' ∨ mark = 'X' then some (16, digits)
    else if mark = 'o' ∨ mark = 'O' then some (8, digits)
    else if mark = 'b' ∨ mark = 'B' then some (2, digits)
    else none
  | _ => none

/-- A sign, if there is one, and what follows. -/
def sign (text : Text) : Bool × Text :=
  match text with
  | u :: rest => if u = '-' then (true, rest) else if u = '+' then (false, rest) else (false, text)
  | [] => (false, [])

/-- The exponent that a text consists of; zero for no text. -/
def exponent? (text : Text) : Option Int :=
  match text with
  | [] => some 0
  | u :: rest =>
    let (negative, digits) := sign rest
    if (u = 'e' ∨ u = 'E') ∧ digits ≠ [] ∧ digits.all isDigit then
      some (if negative then -(ofDigits digits : Int) else ofDigits digits)
    else none

/-- A decimal number without its sign. -/
def decimal? (text : Text) : Option Binary64 :=
  let whole := text.takeWhile isDigit
  let rest := text.dropWhile isDigit
  let (fraction, rest) := match strip? (lit ".") rest with
    | some more => (more.takeWhile isDigit, more.dropWhile isDigit)
    | none => ([], rest)
  if whole = [] ∧ fraction = [] then none
  else (exponent? rest).map fun e =>
    Binary64.ofDecimal (ofDigits (whole ++ fraction)) (e - fraction.length)

/-- The number that a text denotes, if it denotes one. -/
def ofText? (text : Text) : Option Signed :=
  let text := trim text
  if text = [] then some ⟨false, .finite 0 Binary64.leastExponent⟩
  else match based? text with
    | some (base, digits) => (digitsFrom? base 0 digits).map fun n => ⟨false, .ofRatio n 1⟩
    | none =>
      let (negative, body) := sign text
      if body = lit "Infinity" then some ⟨negative, .infinite⟩
      else (decimal? body).map (⟨negative, ·⟩)

end MagmaTrace.Signed
