import MagmaTrace.Term.Tptp

/-! # Expressions

An expression is a term or an equation between two terms. In a transcript it may stand in
one pair of parentheses and end with periods; a formula may begin with a quantifier.
-/

namespace MagmaTrace

open Text

/-- A bare term, or an equation. -/
inductive Expression where
  | bare (term : Term)
  | equation (lhs rhs : Term)
  deriving DecidableEq

namespace Expression

/-- The names of the leaves from left to right, with repetitions. -/
def names : Expression → List Text
  | bare term => term.names
  | equation lhs rhs => lhs.names ++ rhs.names

/-- Change every name. -/
def rename (f : Text → Text) : Expression → Expression
  | bare term => bare (term.rename f)
  | equation lhs rhs => equation (lhs.rename f) (rhs.rename f)

/-- Write the terms of an expression in a given form. -/
def write (form : Term → Text) : Expression → Text
  | bare term => form term
  | equation lhs rhs => form lhs ++ lit " = " ++ form rhs

/-- The depth of parentheses after a unit. It may fall below zero. -/
def depthAfter (depth : Int) (u : CodeUnit) : Int :=
  if u = '(' then depth + 1 else if u = ')' then depth - 1 else depth

/-- The number of units before the first equals sign that stands at depth zero. -/
def equalsIndex? : (depth : Int) → Text → Option Nat
  | _, [] => none
  | depth, u :: rest =>
    if u = '=' ∧ depth = 0 then some 0 else (equalsIndex? (depthAfter depth u) rest).map (· + 1)

/-- The offset of the first equals sign outside parentheses between two offsets. -/
def equalsBetween? (text : Text) (start stop : Nat) : Option Nat :=
  (equalsIndex? 0 ((text.take stop).drop start)).map (start + ·)

/-- What follows the closing parenthesis that brings a depth back to zero. -/
def afterClosing? : (depth : Int) → Text → Option Text
  | _, [] => none
  | depth, u :: rest =>
    if u = ')' ∧ depth = 1 then some rest else afterClosing? (depthAfter depth u) rest

/-- Whether the text starts with a parenthesis whose partner is its last unit. -/
def isEnclosed : Text → Bool
  | [] => false
  | u :: rest => u == '(' && afterClosing? 1 rest == some []

/-- The part of a text, given by its first offset, without white space at its start and
    without white space and periods at its end. -/
def trimmed (start : Nat) (body : Text) : Nat × Text :=
  (start + (body.takeWhile isBlank).length, dropEndWhile Term.isTrailing (skipBlanks body))

/-- Where the terms of an expression stand in a text: without surrounding white space and
    periods, and without one pair of parentheses around everything. -/
def core (text : Text) : Nat × Text :=
  let (start, body) := trimmed 0 text
  if isEnclosed body then trimmed (start + 1) (body.drop 1).dropLast else (start, body)

/-- Read a text as an expression. -/
def read (text : Text) : Except SyntaxError Expression :=
  let (start, body) := core text
  match equalsIndex? 0 body with
  | none => bare <$> Term.readBetween text start (start + body.length)
  | some k => do
    let lhs ← Term.readBetween text start (start + k)
    let rhs ← Term.readBetween text (start + k + 1) (start + body.length)
    return equation lhs rhs

/-- What follows a leading quantifier `! [X, Y] :`. -/
def afterQuantifier? (formula : Text) : Option Text := do
  let names ← strip? (lit "!") (skipBlanks formula)
  let inside ← strip? (lit "[") (skipBlanks names)
  let closed ← strip? (lit "]") (inside.dropWhile (· != ']'))
  strip? (lit ":") (skipBlanks closed)

/-- A formula without its leading quantifier and without white space around it. -/
def stripQuantifier (formula : Text) : Text := trim ((afterQuantifier? formula).getD formula)

/-- Read a formula as an expression, whatever it quantifies over. -/
def ofFormula (formula : Text) : Except SyntaxError Expression := read (stripQuantifier formula)

end Expression

end MagmaTrace
