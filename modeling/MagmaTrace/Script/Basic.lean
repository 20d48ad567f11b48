import MagmaTrace.Calc
import MagmaTrace.Script.Template

/-! # Scripts

A script defines the laws of the hypothesis and the conjecture, states the retained axioms,
and proves the theorem in blocks: one for each lemma, and the last for the goal.
-/

namespace MagmaTrace

open Text

/-- An expression in its own scope: its variables by rank, and the expression in them. -/
structure Statement where
  vars : List Text
  expression : Expression
  deriving DecidableEq

namespace Statement

/-- The statement of an expression, in variables named by rank. -/
def ofExpression (e : Expression) : Statement :=
  let scope := Renaming.scope e
  ⟨scope.vars, e.rename scope.apply⟩

/-- The indent of the right side of a broken equation. -/
def indent : Text := lit "      "

/-- The body on one line. -/
def line (s : Statement) : Text := s.expression.write Term.lean

/-- The body within a width. -/
def body (s : Statement) (limit : Signed) : Text :=
  match s.expression with
  | .bare term => term.lean
  | .equation lhs rhs => Layout.equationBody lhs.lean rhs.lean indent limit

end Statement

/-- How a block is proved: by a chain of equations, or by citing names. -/
inductive Proof where
  | chain (steps : List CalcStep)
  | citing (names : List Text)
  deriving DecidableEq

def Proof.write (o : Options) : Proof → Text
  | chain steps => Template.chainProof (CalcStep.writeAll o steps)
  | citing names => Template.tacticProof o.tactic names

/-- A block of the theorem's proof. -/
inductive Block where
  /-- A lemma is stated and proved. -/
  | auxiliary (name : Text) (statement : Statement) (proof : Proof)
  /-- The goal is proved, after its variables are introduced. -/
  | goal (vars : List Text) (proof : Proof)
  deriving DecidableEq

namespace Block

def write (o : Options) : Block → Text
  | auxiliary name statement proof =>
    Template.lemmaBlock name statement.vars (statement.body o.maxLineLength) (proof.write o)
  | goal vars proof => Template.goalBlock vars (proof.write o)

/-- The block of a lemma: by its proof if it has one, else from what it depends on. -/
def ofLemma (n : Naming) (l : ResolvedLemma) : Except TranslationError Block := do
  let statement := Statement.ofExpression l.expression
  let proof ← match l.proof with
    | some block => Proof.chain <$> CalcStep.ofBlock (Renaming.scope l.expression) n block
    | none => pure (.citing l.dependencies)
  return if l.isConjecture then .goal statement.vars proof
    else .auxiliary l.name statement proof

end Block

/-- A law with the name of the formula that declares it. -/
structure Law where
  name : Text
  statement : Statement
  deriving DecidableEq

namespace Law

/-- The law that a declaration states. -/
def ofDeclaration (d : Declaration) : Except LineError Law :=
  match Expression.ofFormula d.formula with
  | .ok e => .ok ⟨d.name, .ofExpression e⟩
  | .error e => .error ⟨d.line, d.formula, e⟩

/-- The definition of a law. -/
def writeSchema (law : Law) : Text :=
  Template.schema law.name law.statement.vars law.statement.line

/-- The law as an axiom. -/
def writeAxiom (o : Options) (law : Law) : Text :=
  Template.retainedAxiom law.name law.statement.vars (law.statement.body o.maxLineLength)

end Law

/-- The axiom of a script that an inline axiom becomes. -/
def RetainedAxiom.law (a : RetainedAxiom) : Law := ⟨a.name, .ofExpression a.expression⟩

/-- A script before it is written out. -/
structure Script where
  hypothesis : Law
  axioms : List Law
  conjecture : Law
  blocks : List Block
  deriving DecidableEq

namespace Script

/-- The text of a script. -/
def write (o : Options) (s : Script) : Text :=
  let proof := Template.theoremHeader s.hypothesis.name s.conjecture.name o.hypothesisName ++
    joinLines (s.blocks.map (Block.write o))
  joinLines ([Template.preamble, s.hypothesis.writeSchema] ++ s.axioms.map (Law.writeAxiom o) ++
    [s.conjecture.writeSchema, proof])

/-- The lemmas in the order of their blocks: the goal comes last. -/
def arrange (lemmas : List ResolvedLemma) : List ResolvedLemma :=
  lemmas.filter (!·.isConjecture) ++ lemmas.filter (·.isConjecture)

/-- The closing block of a theorem whose goal was not proved in a block of its own. -/
def closing (conjecture : Declaration) (lemmas : List ResolvedLemma) :
    Except LineError (List Block) :=
  if lemmas.any (·.isConjecture) then .ok []
  else do
    let law ← Law.ofDeclaration conjecture
    return [.goal law.statement.vars (.citing [])]

/-- Put a script together. -/
def assemble (hypothesis conjecture : Declaration) (n : Naming) (r : Resolution) :
    Except TranslationError Script := do
  let blocks ← (arrange r.lemmas).mapM (Block.ofLemma n)
  let closing ← (closing conjecture r.lemmas).mapError .malformed
  let hypothesisLaw ← (Law.ofDeclaration hypothesis).mapError .malformed
  let conjectureLaw ← (Law.ofDeclaration conjecture).mapError .malformed
  return ⟨hypothesisLaw, r.axioms.map (·.law), conjectureLaw, blocks ++ closing⟩

end Script

end MagmaTrace
