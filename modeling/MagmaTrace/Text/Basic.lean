/-! # Texts as lists of code units

Offsets in diagnostics, lengths of lines and the order of names are all counted in
16-bit code units: a character beyond U+FFFF takes two. A text is therefore the list
of its units, in which half of such a pair is an element like any other; only
`Text.toString` has to say what a lone half is shown as.
-/

namespace MagmaTrace

/-- One 16-bit code unit. -/
abbrev CodeUnit := UInt16

/-- A text is the list of its code units. -/
abbrev Text := List CodeUnit

/-- Texts are equal when they agree unit by unit. -/
instance : LawfulBEq Text := inferInstance

/-- The unit of a character up to U+FFFF, so that marks can be written as characters. -/
instance : Coe Char CodeUnit := ⟨fun c => c.toNat.toUInt16⟩

namespace Text

/-- The units of one point: itself up to U+FFFF, a pair of halves beyond. -/
def ofPoint (n : Nat) : Text :=
  if n < 0x10000 then [n.toUInt16]
  else [(0xD800 + (n - 0x10000) / 0x400).toUInt16, (0xDC00 + (n - 0x10000) % 0x400).toUInt16]

/-- The units of one character. -/
def ofChar (c : Char) : Text := ofPoint c.toNat

/-- First half of a pair. -/
def isHighHalf (u : CodeUnit) : Bool := 0xD800 ≤ u && u < 0xDC00

/-- Second half of a pair. -/
def isLowHalf (u : CodeUnit) : Bool := 0xDC00 ≤ u && u < 0xE000

/-- The points of a text: two matching halves make one, any other unit stands for itself. -/
def points : Text → List Nat
  | [] => []
  | [u] => [u.toNat]
  | u :: v :: rest =>
    if isHighHalf u && isLowHalf v then
      (0x10000 + (u.toNat - 0xD800) * 0x400 + (v.toNat - 0xDC00)) :: points rest
    else u.toNat :: points (v :: rest)

/-- The character of a point; a lone half is shown as U+FFFD. -/
def charOfPoint (n : Nat) : Char :=
  if 0xD800 ≤ n && n < 0xE000 then '\uFFFD' else Char.ofNat n

/-- The characters of a text. -/
def toChars (text : Text) : List Char := (points text).map charOfPoint

/-- The string a text is shown as. -/
def toString (text : Text) : String := String.ofList (toChars text)

end Text

/-- The text of a string. -/
def lit (s : String) : Text := s.toList.flatMap Text.ofChar

theorem lit_append (s t : String) : lit (s ++ t) = lit s ++ lit t := by
  simp [lit]

namespace Text

/-! ## Classes of units -/

@[match_pattern] abbrev newline : CodeUnit := 0x0A
@[match_pattern] abbrev carriageReturn : CodeUnit := 0x0D

/-- White space: the ASCII blanks and line ends, the no-break spaces, the space separators
    of Unicode and its two line separators. -/
def isBlank (u : CodeUnit) : Bool :=
  (0x09 ≤ u && u ≤ 0x0D) || u == 0x20 || u == 0xA0 || u == 0x1680 ||
  (0x2000 ≤ u && u ≤ 0x200A) || u == 0x2028 || u == 0x2029 || u == 0x202F ||
  u == 0x205F || u == 0x3000 || u == 0xFEFF

/-- The units that end a line of text. -/
def isLineEnd (u : CodeUnit) : Bool :=
  u == newline || u == carriageReturn || u == 0x2028 || u == 0x2029

/-- ASCII digits. -/
def isDigit (u : CodeUnit) : Bool := 0x30 ≤ u && u ≤ 0x39

/-- ASCII letters. -/
def isLetter (u : CodeUnit) : Bool := (0x41 ≤ u && u ≤ 0x5A) || (0x61 ≤ u && u ≤ 0x7A)

/-- Letters, digits and the low line: what a name may go on with. -/
def isWord (u : CodeUnit) : Bool := isLetter u || isDigit u || u == 0x5F

/-- Letters and the low line: what a name of a Lean variable may start with. -/
def isWordStart (u : CodeUnit) : Bool := isLetter u || u == 0x5F

end Text

end MagmaTrace
