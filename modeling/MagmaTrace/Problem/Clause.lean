import MagmaTrace.Registry
import MagmaTrace.Term.Diamond
import MagmaTrace.Text.Order

/-! # Equations for the prover

An equation of the database, written as in a Lean script, becomes a clause for the prover: its
variables are named X0, X1, … by first appearance, left to right.
-/

namespace MagmaTrace

open Text

/-- An equation in the prover's form and its variables in order. -/
structure Clause where
  formula : Text
  vars : List Text
  deriving DecidableEq

namespace Clause

/-- The name of the variable that appears at a given place among the distinct ones. -/
def variableName (place : Nat) : Text := lit "X" ++ decimal place

/-- The new names of some names, by first appearance. The operation's name keeps itself. -/
def byAppearance (names : List Text) : Registry Text Text :=
  Registry.ofList ((firstMentions (names.filter (· ≠ lit "op"))).mapIdx fun place name =>
    (name, variableName place))

/-- The clause of an equation between two terms. -/
def ofTerms (lhs rhs : Term) : Clause :=
  let r := byAppearance (lhs.names ++ rhs.names)
  let write (t : Term) : Text := (t.rename fun name => (r.get? name).getD name).tptp
  ⟨lit "(" ++ write lhs ++ lit " = " ++ write rhs ++ lit ")", r.values⟩

/-- The clause of an equation given as text. The first equals sign divides it. -/
def ofLean (text : Text) : Except SyntaxError Clause :=
  match text.dropWhile (· != ('=' : CodeUnit)) with
  | [] => .error (.whole .equals text)
  | _ :: right => do
    let lhs ← Term.ofLean (trim (text.takeWhile (· != ('=' : CodeUnit))))
    let rhs ← Term.ofLean (trim right)
    return ofTerms lhs rhs

/-- A declaration of a clause under a quantifier. -/
def declare (name role vars formula : Text) : Text :=
  lit "fof(" ++ name ++ lit ", " ++ role ++ lit ",\n    ! [" ++ vars ++ lit "] :\n        " ++
    formula ++ lit "\n).\n"

/-- The problem of deriving one clause from another. Both are quantified over the variables of
    either, in increasing order of name. -/
def problem (hypothesis conjecture : Clause) : Text :=
  let vars := join (lit ", ")
    (sort (firstMentions (hypothesis.vars ++ conjecture.vars)))
  declare (lit "a1") (lit "axiom") vars hypothesis.formula ++ lit "\n" ++
    declare (lit "conjecture0") (lit "conjecture") vars conjecture.formula

end Clause

end MagmaTrace
