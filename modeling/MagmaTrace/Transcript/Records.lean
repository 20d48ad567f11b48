import MagmaTrace.Expression
import MagmaTrace.Registry
import MagmaTrace.Text.Case
import MagmaTrace.Transcript.Declaration
import MagmaTrace.Transcript.Dependency

/-! # The records of a transcript

What scanning a transcript leaves: the two declared formulas, the inline axioms, the lemmas
in the order of their discovery, the proofs, and the references that proofs made.
-/

namespace MagmaTrace

open Text

/-- An axiom stated inline. -/
structure AxiomRecord where
  name : Text
  expression : Expression
  line : Nat
  deriving DecidableEq

/-- A lemma or a goal. -/
structure LemmaRecord where
  name : Text
  expression : Expression
  dependencies : List Dependency
  line : Nat
  deriving DecidableEq

/-- A line of a proof with its number in the transcript. -/
structure ProofLine where
  text : Text
  line : Nat
  deriving DecidableEq

/-- The lines of a proof and the name of what they prove. -/
structure ProofBlock where
  name : Text
  lines : List ProofLine
  deriving DecidableEq

/-- What a proof depends on. -/
def ProofBlock.dependencies (block : ProofBlock) : List Dependency :=
  Dependency.ofLines (block.lines.map (·.text))

/-- Everything recorded from a transcript. -/
structure Records where
  hypothesis : Option Declaration
  conjecture : Option Declaration
  axioms : Registry Text AxiomRecord
  lemmas : Registry Text LemmaRecord
  proofs : Registry Text ProofBlock
  used : List Text
  deriving DecidableEq

namespace Records

def empty : Records := ⟨none, none, ∅, ∅, ∅, []⟩

/-- Whether a block of this name proves the hypothesis itself. -/
def isHypothesisName (r : Records) (name : Text) : Bool :=
  lower name == Dependency.hypothesisToken || r.hypothesis.any (·.name == name)

/-- Whether a block of this name proves the conjecture. -/
def isConjectureName (r : Records) (name : Text) : Bool :=
  startsWith Role.conjecture.word name || r.conjecture.any (·.name == name)

/-- Record an axiom; a later one of the same name takes its place. -/
def addAxiom (r : Records) (record : AxiomRecord) : Records :=
  { r with axioms := r.axioms.insert record.name record }

/-- Record a lemma; a later one of the same name takes its place. -/
def addLemma (r : Records) (record : LemmaRecord) : Records :=
  { r with lemmas := r.lemmas.insert record.name record }

/-- Record a declared formula under its role. -/
def addDeclaration (r : Records) (d : Declaration) : Records :=
  match d.role with
  | .hypothesis => { r with hypothesis := some d }
  | .conjecture => { r with conjecture := some d }

/-- Record references, each at its first mention. -/
def addReferences (r : Records) (references : List Text) : Records :=
  { r with used := references.foldl addNew r.used }

/-- Record a finished proof, and make what it cites the dependencies of its lemma. A block
    without lines proves nothing. -/
def addProof (r : Records) (block : ProofBlock) : Records :=
  if block.lines = [] then r
  else
    let r := { r with proofs := r.proofs.insert block.name block }
    match r.lemmas.get? block.name with
    | none => r
    | some record =>
      { r with lemmas := r.lemmas.insert block.name
                 { record with dependencies := block.dependencies } }

end Records

end MagmaTrace
