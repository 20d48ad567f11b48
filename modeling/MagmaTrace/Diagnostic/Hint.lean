import MagmaTrace.Text.Cut

/-! # Hints for malformed terms

A malformed text is looked over for the usual slips, and the first one found is named.
-/

namespace MagmaTrace.Hint

open Text

/-- Whether the unit before a position leaves room for a word to start there. -/
private def startsWord (before : Option CodeUnit) : Bool := !(before.any isWord)

/-- The operation's name, then white space, then a parenthesis. -/
def hasSpacedOperation (text : Text) : Bool :=
  holdsSomewhere (fun before here => startsWord before &&
    (((strip? (lit "op") here).bind skipSomeBlanks?).any (startsWith (lit "(")))) none text

/-- The operation applied to something without a comma. -/
def hasLoneArgument (text : Text) : Bool :=
  holdsSomewhere (fun before here => startsWord before &&
    ((strip? (lit "op(") here).any fun inside =>
      startsWith (lit ")") (inside.dropWhile fun u => u != ',' && u != '(' && u != ')'))) none text

/-- An opening parenthesis with no closing one after it. -/
def hasUnclosed (text : Text) : Bool :=
  holdsSomewhere (fun _ here => (strip? (lit "(") here).any fun rest =>
    !rest.contains (')' : CodeUnit)) none text

/-- A closing parenthesis with no opening one before it. -/
def hasUnopened (text : Text) : Bool :=
  (text.takeWhile (· != ('(' : CodeUnit))).contains (')' : CodeUnit)

/-- Two equals signs on one line. -/
def hasTwoEquals (text : Text) : Bool :=
  holdsSomewhere (fun _ here => (strip? (lit "=") here).any fun rest =>
    (rest.takeWhile fun u => !isLineEnd u).contains ('=' : CodeUnit)) none text

/-- A comma with nothing after it. -/
def hasEmptyArgument (text : Text) : Bool :=
  holdsSomewhere (fun _ here => (strip? (lit ",") here).any fun rest =>
    match skipBlanks rest with
    | u :: _ => u == ',' || u == ')'
    | [] => false) none text

/-- The slips in the order in which they are looked for, with what each is answered by. -/
def slips : List ((Text → Bool) × Text) :=
  [ (hasSpacedOperation, lit "Write 'op(' without a space before the parenthesis"),
    (hasLoneArgument, lit "'op' takes exactly two arguments separated by ','"),
    (hasUnclosed, lit "Unbalanced parentheses - missing closing ')'"),
    (hasUnopened, lit "Unbalanced parentheses - missing opening '('"),
    (hasTwoEquals, lit "Only one top-level '=' is allowed per expression"),
    (hasEmptyArgument, lit "Empty argument in 'op(...)'") ]

/-- The hint for the first slip found in a text. -/
def find? (text : Text) : Option Text := (slips.find? (·.1 text)).map (·.2)

end MagmaTrace.Hint
