import MagmaTrace.Text.CaseTable
import MagmaTrace.Text.Basic

/-! # Lower case

Names are compared without regard to case: the key of a name is its lower-case form, by the
default case conversion of Unicode. That conversion goes by points and not by units, and it is
not letter by letter: a capital sigma lowers to another letter at the end of a word than within
one, and the capital I with a dot lowers to two points.

Caseless search folds ASCII letters only. The two agree on ASCII texts; beyond them U+212A, which
lowers to an ASCII letter, is found by no search for `k`.
-/

namespace MagmaTrace.Text

/-! ## ASCII -/

/-- The lower-case form of an ASCII capital; any other unit is left. -/
def lowerLetter (u : CodeUnit) : CodeUnit := if 0x41 ≤ u && u ≤ 0x5A then u + 0x20 else u

/-- A text with its ASCII capitals in lower case. -/
def lowerLetters (text : Text) : Text := text.map lowerLetter

/-- The text after a beginning given in lower case and found in any case. -/
def stripCaseless? : (lead text : Text) → Option Text
  | [], text => some text
  | _ :: _, [] => none
  | a :: lead, b :: text => if a = lowerLetter b then stripCaseless? lead text else none

/-! ## Unicode -/

/-- Whether the first point that is not case-ignorable is cased. -/
def meetsCased (points : List Nat) : Bool :=
  (points.dropWhile (inRanges ignorableRanges)).head?.any (inRanges casedRanges)

/-- The lower-case form of a point, between the points before it, the nearest of which is the
    first, and the points after it. A capital sigma takes its final form after a cased letter
    and before none. -/
def lowerPoint (before after : List Nat) (c : Nat) : List Nat :=
  if c < 0x80 then [(lowerLetter c.toUInt16).toNat]
  else if c = 0x3A3 then [if meetsCased before && !meetsCased after then 0x3C2 else 0x3C3]
  else if c = 0x130 then [0x69, 0x307]
  else [(caseRuns.findSome? (·.lower? c)).getD c]

/-- The lower-case form of some points after others, the nearest of which is the first. -/
def lowerPoints (before : List Nat) : List Nat → List Nat
  | [] => []
  | c :: after => lowerPoint before after c ++ lowerPoints (c :: before) after

/-- The lower-case form of a text. -/
def lower (text : Text) : Text := (lowerPoints [] (points text)).flatMap ofPoint

end MagmaTrace.Text
