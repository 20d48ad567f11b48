import MagmaTrace.Problem.Clause
import MagmaTrace.Problem.Database

/-! # Problems for every implication

A file of proofs names its theorems `Equation<a>_implies_Equation<b>`. For each of them whose
two equations are known, a problem is written; the others are skipped.
-/

namespace MagmaTrace

open Text

/-- The two equation numbers in a theorem's name, as written. -/
structure Implication where
  hypothesis : Text
  conjecture : Text
  deriving DecidableEq

namespace Implication

def name (i : Implication) : Text :=
  lit "Equation" ++ i.hypothesis ++ lit "_implies_Equation" ++ i.conjecture

/-- The theorem that is stated at the start of a text. -/
def here? (text : Text) : Option Implication := do
  let rest ← skipSomeBlanks? (← strip? (lit "theorem") text)
  let (hypothesis, rest) ← run? isDigit (← strip? (lit "Equation") rest)
  let (conjecture, _) ← run? isDigit (← strip? (lit "_implies_Equation") rest)
  return ⟨hypothesis, conjecture⟩

/-- The theorems stated in a text, from left to right. -/
def all (text : Text) : List Implication := scan here? text

/-- The texts of the two equations, if both are known. -/
def equations? (index : EquationIndex) (i : Implication) : Option (Text × Text) := do
  let hypothesis ← index.get? (Numeral.ofDigits i.hypothesis)
  let conjecture ← index.get? (Numeral.ofDigits i.conjecture)
  return (hypothesis, conjecture)

end Implication

/-- A problem for the prover and the name of its file. -/
structure Problem where
  fileName : Text
  content : Text
  deriving DecidableEq

/-- The problems written and the theorems skipped. -/
structure Generation where
  problems : List Problem
  skipped : List Text
  deriving DecidableEq

namespace Generation

/-- The problem of a theorem. -/
def problemOf (i : Implication) (hypothesis conjecture : Text) : Except SyntaxError Problem := do
  let hypothesis ← Clause.ofLean hypothesis
  let conjecture ← Clause.ofLean conjecture
  return ⟨i.name ++ lit ".p", hypothesis.problem conjecture⟩

/-- The problems of some theorems. A malformed equation is an error. -/
def ofImplications (index : EquationIndex) : List Implication → Except SyntaxError Generation
  | [] => .ok ⟨[], []⟩
  | i :: rest =>
    match i.equations? index with
    | none => do
      let more ← ofImplications index rest
      return { more with skipped := i.name :: more.skipped }
    | some (hypothesis, conjecture) => do
      let problem ← problemOf i hypothesis conjecture
      let more ← ofImplications index rest
      return { more with problems := problem :: more.problems }

/-- The problems for the theorems of a file of proofs. -/
def ofProofs (proofs : Text) (index : EquationIndex) : Except SyntaxError Generation :=
  ofImplications index (Implication.all proofs)

end Generation

end MagmaTrace
