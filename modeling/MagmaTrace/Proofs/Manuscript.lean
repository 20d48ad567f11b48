import MagmaTrace.Proofs.Citation
import MagmaTrace.Proofs.Formulas
import MagmaTrace.Transcript.Records

/-! # Well-formed transcripts

A manuscript is what a well-formed transcript is printed from: a header of declarations in any
order, and proofs in blocks. Its parts carry the conditions under which each stays what it is on
the line it is printed on.
-/

namespace MagmaTrace

open Text

abbrev Digits := { digits : Text // digits ≠ [] ∧ ∀ u ∈ digits, isDigit u = true }

/-- A name that can stand in parentheses. -/
abbrev EnclosedName := { name : Text // name ≠ [] ∧ IsSolid name ∧ Term.closeMark ∉ name }

/-- The mark before the hints of a declared lemma. -/
def Event.bar : CodeUnit := '|'

abbrev HintName :=
  { name : Text // name ≠ [] ∧ IsSolid name ∧ Term.comma ∉ name ∧ Event.bar ∉ name ∧
    ¬ lit "->" <:+: name }

abbrev LemmaToken :=
  { name : Text // ∃ lead ∈ [lit "single_lemma_", lit "history_lemma_"], ∃ digits, digits ≠ [] ∧
    (∀ u ∈ digits, isDigit u = true) ∧ name = lead ++ digits }

/-- A term that can stand on a line of a proof. A variable there must not begin like a heading or
    a result line. -/
abbrev ProofTerm :=
  { t : Term // t.IsLettered ∧ ∀ name, t = .var name →
    ∀ word ∈ [Keyword.goal.word, Keyword.auxiliary.word, Event.resultMark],
      startsWith word name = false }

/-- An equation that the prover can print. -/
structure Equation where
  lhs : Term
  rhs : Term
  lhsLettered : lhs.IsLettered
  rhsLettered : rhs.IsLettered
  deriving DecidableEq

namespace Equation

def expression (e : Equation) : Expression := .equation e.lhs e.rhs

def text (e : Equation) : Text := e.lhs.tptp ++ lit " = " ++ e.rhs.tptp

end Equation

namespace Manuscript

/-- A formula declared for the hypothesis or the conjecture: its name, the variables it is
    quantified over, as they are printed, and its equation. -/
structure Formula where
  name : Text
  vars : Text
  equation : Equation
  nonempty : name ≠ []
  solid : IsSolid name
  noComma : Term.comma ∉ name
  noBracket : Expression.bracket ∉ vars
  noFeed : newline ∉ vars
  deriving DecidableEq

def Formula.text (f : Formula) : Text :=
  lit "! [" ++ f.vars ++ lit "] : (" ++ f.equation.text ++ lit ")"

inductive Entry where
  | formula (role : Role)
  | inlineAxiom (number : Digits) (name : EnclosedName) (equation : Equation)
  | declaredLemma (name : LemmaToken) (equation : Equation) (hints : List HintName)
  deriving DecidableEq

namespace Entry

def axiomName? : Entry → Option Text
  | inlineAxiom _ name _ => some name
  | _ => none

def lemmaName? : Entry → Option Text
  | declaredLemma name _ _ => some name
  | _ => none

def axiomRecord? (line : Nat) : Entry → Option AxiomRecord
  | inlineAxiom _ name equation => some ⟨name, equation.expression, line⟩
  | _ => none

def lemmaRecord? (line : Nat) : Entry → Option LemmaRecord
  | declaredLemma name equation hints =>
    some ⟨name, equation.expression, hints.map fun hint => Dependency.ofName hint.1, line⟩
  | _ => none

end Entry

/-- What justifies a step: an axiom by its number and name, or a lemma by its number. -/
inductive Reason where
  | byAxiom (number : Digits) (name : EnclosedName)
  | byLemma (number : Digits)

namespace Reason

def line : Reason → Text
  | byAxiom number name => lit "= \x7b by axiom " ++ number ++ lit " (" ++ name ++ lit ") \x7d"
  | byLemma number => lit "= \x7b by lemma " ++ number ++ lit " \x7d"

/-- The token before the closing parenthesis after a name, if there is one: it is all of the name
    after its last parenthesis. -/
def tokenOf (name : Text) : List Text :=
  let last := (name.reverse.takeWhile (· != Term.openMark)).reverse
  if Dependency.IsToken last then [last] else []

/-- The declared statements that a reason refers to. -/
def references : Reason → List Text
  | byAxiom _ name => tokenOf name
  | byLemma _ => []

/-- The names that a reason cites. -/
def cited : Reason → List Text
  | byAxiom _ name => tokenOf name
  | byLemma number => [lit "Lemma_" ++ number]

end Reason

/-- A block: a lemma with its number, or the goal without one, and the terms of its proof with a
    reason between each two. -/
structure Passage where
  number : Option { n : Nat // n < Nat.pow 2 53 }
  equation : Equation
  start : ProofTerm
  steps : List (Reason × ProofTerm)

namespace Passage

/-- What a block proves; the goal is the conjecture. -/
def name (conjecture : Text) (p : Passage) : Text :=
  match p.number with
  | some n => lit "Lemma_" ++ decimal n
  | none => conjecture

def heading (p : Passage) : Text :=
  (match p.number with
    | some n => lit "Lemma " ++ decimal n
    | none => lit "Goal 1") ++ lit ": " ++ p.equation.text ++ lit "."

/-- The lines between the heading and the result. -/
def body (p : Passage) : List Text :=
  lit "Proof:" :: p.start.1.tptp :: p.steps.flatMap fun step => [step.1.line, step.2.1.tptp]

def lines (p : Passage) : List Text := p.heading :: (p.body ++ [Event.resultMark])

/-- The lines of a proof that begins after a given line. -/
def proofLines (p : Passage) (line : Nat) : List ProofLine :=
  (p.body.zipIdx (line + 1)).map fun entry => ⟨entry.1, entry.2⟩

def references (p : Passage) : List Text := p.steps.flatMap fun step => step.1.references

/-- What a proof depends on: the names it cites, each once and in increasing order. -/
def dependencies (p : Passage) : List Dependency :=
  (sort (firstMentions (p.steps.flatMap fun step => step.1.cited))).map Dependency.ofName

/-- Blocks with the lines of their headings, the first of which is given. -/
def place : Nat → List Passage → List (Passage × Nat)
  | _, [] => []
  | line, p :: rest => (p, line) :: place (line + p.lines.length) rest

end Passage

end Manuscript

open Manuscript

structure Manuscript where
  hypothesis : Formula
  conjecture : Formula
  header : List Entry
  blocks : List Passage
  /-- Both formulas are declared. -/
  once : ∀ role, header.count (.formula role) = 1
  axiomsDistinct : (header.filterMap Entry.axiomName?).Nodup
  /-- The hypothesis and the lemmas have different names; the goal goes by the conjecture's, so
      there is one goal at most. -/
  distinct : (hypothesis.name :: (header.filterMap Entry.lemmaName? ++
    blocks.map (Passage.name conjecture.name))).Nodup
  conjectureName : lower conjecture.name ≠ Dependency.hypothesisToken

namespace Manuscript

variable (m : Manuscript)

def formula : Role → Formula
  | .hypothesis => m.hypothesis
  | .conjecture => m.conjecture

def entryLine : Entry → Text
  | .formula role =>
    lit "fof(" ++ (m.formula role).name ++ lit ", " ++ role.word ++ lit ", " ++
      (m.formula role).text ++ lit ")."
  | .inlineAxiom number name equation =>
    lit "Axiom " ++ number ++ lit " (" ++ name ++ lit "): " ++ equation.text ++ lit "."
  | .declaredLemma name equation hints =>
    lit "% " ++ name ++ lit ": " ++ equation.text ++ lit " | deps: " ++
      join (lit ", ") (hints.map (·.1))

def lines : List Text :=
  m.header.map m.entryLine ++ Event.proofMarker :: m.blocks.flatMap Passage.lines

def text : Text := joinLines m.lines

/-! ## What is on record -/

/-- What some lines of a header leave on record, each with its number. -/
def recorded {α : Type} (record? : Nat → Entry → Option α) (entries : List Entry) : List α :=
  (entries.zipIdx 1).filterMap fun entry => record? entry.2 entry.1

def axiomRecords (entries : List Entry) : List AxiomRecord := recorded Entry.axiomRecord? entries

def declaredLemmas (entries : List Entry) : List LemmaRecord := recorded Entry.lemmaRecord? entries

/-- Some blocks with the lines of their headings. The first comes after the marker. -/
def placed (blocks : List Passage) : List (Passage × Nat) :=
  Passage.place (m.header.length + 2) blocks

def provedLemmas (blocks : List Passage) : List LemmaRecord :=
  (m.placed blocks).map fun block =>
    ⟨block.1.name m.conjecture.name, block.1.equation.expression, block.1.dependencies, block.2⟩

def proofBlocks (blocks : List Passage) : List ProofBlock :=
  (m.placed blocks).map fun block =>
    ⟨block.1.name m.conjecture.name, block.1.proofLines block.2⟩

def declaration (role : Role) : Declaration :=
  ⟨(m.formula role).name, role, (m.formula role).text, m.header.idxOf (.formula role) + 1⟩

end Manuscript

end MagmaTrace
