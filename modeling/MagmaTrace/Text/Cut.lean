import MagmaTrace.Text.Basic

/-! # Cutting, searching and joining texts

Every search is a walk over the text, so each function here is a structural recursion
or a composition of the list operators. A search that can succeed returns the text that
follows what it found.
-/

namespace MagmaTrace.Text

/-- Drop the longest end of the text whose units all satisfy `p`. -/
def dropEndWhile (p : CodeUnit → Bool) (text : Text) : Text :=
  (text.reverse.dropWhile p).reverse

/-- Skip leading white space. -/
def skipBlanks (text : Text) : Text := text.dropWhile isBlank

/-- Remove white space at both ends. -/
def trim (text : Text) : Text := dropEndWhile isBlank (skipBlanks text)

/-- The text after a given beginning, if it begins so. -/
def strip? : (lead text : Text) → Option Text
  | [], text => some text
  | _ :: _, [] => none
  | a :: lead, b :: text => if a = b then strip? lead text else none

/-- Whether the text begins with `lead`. -/
def startsWith (lead text : Text) : Bool := (strip? lead text).isSome

/-- Whether the text ends with `tail`. -/
def endsWith (tail text : Text) : Bool := startsWith tail.reverse text.reverse

/-- All answers of a test made at every position, from left to right. -/
def scan {α : Type} (test : Text → Option α) : Text → List α
  | [] => (test []).toList
  | u :: rest => (test (u :: rest)).toList ++ scan test rest

/-- The answer of a test at the first position where it has one. -/
def first? {α : Type} (test : Text → Option α) : Text → Option α
  | [] => test []
  | u :: rest => (test (u :: rest)).or (first? test rest)

/-- Whether a test on the unit before a position and on the text from there on holds anywhere. -/
def holdsSomewhere (test : Option CodeUnit → Text → Bool) : Option CodeUnit → Text → Bool
  | before, [] => test before []
  | before, u :: rest => test before (u :: rest) || holdsSomewhere test (some u) rest

/-- The text after the first occurrence of `mark`. -/
def after? (mark text : Text) : Option Text := first? (strip? mark) text

/-- Whether `mark` occurs in the text. -/
def occurs (mark text : Text) : Bool := (after? mark text).isSome

/-- The text before the first occurrence of `mark`; all of it when there is none. -/
def before (mark : Text) : Text → Text
  | [] => []
  | u :: rest => if startsWith mark (u :: rest) then [] else u :: before mark rest

/-- A nonempty run at the start of the text of units that satisfy `p`, and what follows it. -/
def run? (p : CodeUnit → Bool) (text : Text) : Option (Text × Text) :=
  match text.takeWhile p with
  | [] => none
  | u :: more => some (u :: more, text.dropWhile p)

/-- Skip white space, of which there must be some. -/
def skipSomeBlanks? (text : Text) : Option Text := (run? isBlank text).map (·.2)

/-- Change the first piece of a list of pieces. -/
private def onFirst (f : Text → Text) : List Text → List Text
  | [] => []
  | piece :: pieces => f piece :: pieces

/-- The pieces of a text between the occurrences of one unit. -/
def splitAt (mark : CodeUnit) : Text → List Text
  | [] => [[]]
  | u :: rest =>
    if u = mark then [] :: splitAt mark rest else onFirst (u :: ·) (splitAt mark rest)

/-- The lines of a text: they end at a line feed, with or without a carriage return before it. -/
def lines : Text → List Text
  | [] => [[]]
  | carriageReturn :: newline :: rest => [] :: lines rest
  | newline :: rest => [] :: lines rest
  | u :: rest => onFirst (u :: ·) (lines rest)

/-- Pieces with a separator between them. -/
def join (separator : Text) (pieces : List Text) : Text := separator.intercalate pieces

/-- Lines with a line feed between them. -/
def joinLines (pieces : List Text) : Text := join [newline] pieces

/-! ## Lengths

What a reader leaves is never longer than what it was given. -/

theorem length_dropWhile_le (p : CodeUnit → Bool) (text : Text) :
    (text.dropWhile p).length ≤ text.length := by
  induction text with
  | nil => simp
  | cons u rest ih =>
    rw [List.dropWhile_cons]
    split
    · exact Nat.le_succ_of_le ih
    · exact Nat.le_refl _

theorem length_skipBlanks_le (text : Text) : (skipBlanks text).length ≤ text.length :=
  length_dropWhile_le isBlank text

/-- Stripping succeeds exactly on a text that begins with `lead`, and gives what follows. -/
theorem strip?_eq_some {lead text rest : Text} :
    strip? lead text = some rest ↔ text = lead ++ rest := by
  fun_induction strip? lead text with
  | case1 text => simp
  | case2 => simp
  | case3 a lead text ih => simp [ih]
  | case4 a lead b text h => simp [Ne.symm h]

theorem length_of_strip? {lead text rest : Text} (h : strip? lead text = some rest) :
    text.length = lead.length + rest.length := by
  simp [strip?_eq_some.1 h]

end MagmaTrace.Text
