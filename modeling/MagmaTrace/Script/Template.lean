import MagmaTrace.Text.Cut

/-! # The fixed text of a script

The pieces a script is put together from, around bodies and proofs that are already text.
-/

namespace MagmaTrace.Template

open Text

/-- What every script begins with. -/
def preamble : Text := joinLines
  [ lit "import Mathlib.Tactic.NthRewrite",
    lit "import Duper",
    lit "open Lean Grind",
    [],
    lit "class Magma (α : Type _) where",
    lit "  op : α → α → α",
    [],
    lit "infix:65 \" ◇ \" => Magma.op",
    [] ]

/-- Names with a space between them. -/
def spaced (names : List Text) : Text := join (lit " ") names

/-- A body quantified over its variables, if it has any. -/
def quantified (vars : List Text) (body : Text) : Text :=
  if vars = [] then body else lit "∀ " ++ spaced vars ++ lit " : G, " ++ body

/-- The binder of a lemma's variables, if it has any. -/
def binder (vars : List Text) : Text :=
  if vars = [] then [] else lit " (" ++ spaced vars ++ lit " : G)"

/-- The name of the law that a declared formula states. -/
def schemaName (name : Text) : Text := lit "Equation_" ++ name

/-- The definition of a law. -/
def schema (name : Text) (vars : List Text) (body : Text) : Text :=
  lit "abbrev " ++ schemaName name ++ lit " (G : Type _) [Magma G] :=\n  " ++
    quantified vars body ++ lit "\n"

/-- An axiom of the script. -/
def retainedAxiom (name : Text) (vars : List Text) (body : Text) : Text :=
  lit "axiom " ++ name ++ lit " (G : Type _) [Magma G] :\n  " ++
    quantified vars body ++ lit "\n"

/-- The statement of the theorem. -/
def theoremHeader (hypothesis conjecture hypothesisName : Text) : Text :=
  lit "theorem " ++ schemaName hypothesis ++ lit "_implies_" ++ schemaName conjecture ++
    lit " (G : Type _) [Magma G]\n    (" ++ hypothesisName ++ lit " : " ++ schemaName hypothesis ++
    lit " G) : " ++ schemaName conjecture ++ lit " G :=\n"

/-- A lemma within the theorem. -/
def lemmaBlock (name : Text) (vars : List Text) (body proof : Text) : Text :=
  lit "  have " ++ name ++ binder vars ++ lit " :\n    " ++ body ++ lit " := by\n" ++
    proof ++ lit "\n"

/-- The end of the theorem. -/
def goalBlock (vars : List Text) (proof : Text) : Text :=
  let intros := if vars = [] then [] else lit "    intros " ++ spaced vars ++ lit "\n"
  lit "  show _ by\n" ++ intros ++ proof ++ lit "\n"

/-- A proof by a chain of equations. -/
def chainProof (chain : Text) : Text := lit "    calc\n      " ++ chain

/-- A proof by one tactic from what is cited, or from everything at hand. -/
def tacticProof (tactic : Text) (dependencies : List Text) : Text :=
  lit "    " ++ tactic ++ lit " " ++
    if dependencies = [] then lit "[*]" else lit "[" ++ join (lit ", ") dependencies ++ lit "]"

end MagmaTrace.Template
