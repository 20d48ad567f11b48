import MagmaTrace.Options
import MagmaTrace.Transcript.Records

/-! # The names of a script

Lemmas are renumbered `lemma_1`, `lemma_2`, … in the order of their discovery; the inline
axioms that the proofs still rely on become `axiom1`, `axiom2`, … in the order of their
tokens. Every citation is then resolved to one of these names or to the hypothesis.
-/

namespace MagmaTrace

open Text

/-- A cited name that nothing declares, and where it is cited. -/
structure MissingDependency where
  token : Text
  context : Option Text
  deriving DecidableEq

def MissingDependency.diagnostic (e : MissingDependency) : Diagnostic Details :=
  Diagnostic.missingDependency e.token e.context

/-- An inline axiom that stays an axiom of the script. -/
structure RetainedAxiom where
  sourceName : Text
  name : Text
  expression : Expression
  deriving DecidableEq

/-- A lemma with the names it has in the script. -/
structure ResolvedLemma where
  sourceName : Text
  name : Text
  expression : Expression
  dependencies : List Text
  isConjecture : Bool
  proof : Option ProofBlock
  deriving DecidableEq

/-- The names given so far: to the hypothesis, to lemmas, to retained axioms, and the tokens of
    all inline axioms, which keep their own name when they are not retained. -/
structure Naming where
  hypothesis : Text
  lemmas : Registry Text Text
  axioms : Registry Text Text
  declared : List Text
  deriving DecidableEq

namespace Naming

def initial (hypothesis : Text) : Naming := ⟨hypothesis, ∅, ∅, []⟩

/-- The name of the retained axiom of a given rank, counted from one. -/
def axiomName (rank : Nat) : Text := lit "axiom" ++ decimal rank

/-- The name of the lemma of a given rank, counted from one. -/
def lemmaName (rank : Nat) : Text := lit "lemma_" ++ decimal rank

/-- The references that call for an axiom: all but the hypothesis and the lemmas, in
    increasing order. -/
def candidates (records : Records) : List Text :=
  (sort records.used).filter fun token =>
    token ≠ Dependency.hypothesisToken ∧ !records.lemmas.contains token

/-- Name one axiom after another, up to the first that is not declared. -/
def retainFrom (n : Naming) (axioms : Registry Text AxiomRecord) (rank : Nat) :
    List Text → Naming × Except MissingDependency (List RetainedAxiom)
  | [] => (n, .ok [])
  | token :: rest =>
    match axioms.get? token with
    | none =>
      (n, .error ⟨token, some (lit "referenced in a proof but never declared as an Axiom")⟩)
    | some record =>
      let name := axiomName rank
      let n := { n with axioms := n.axioms.insert token name }
      match retainFrom n axioms (rank + 1) rest with
      | (n, .error e) => (n, .error e)
      | (n, .ok retained) => (n, .ok (⟨token, name, record.expression⟩ :: retained))

/-- Name the axioms that the proofs rely on. Names given before a failure stay. -/
def retain (n : Naming) (records : Records) :
    Naming × Except MissingDependency (List RetainedAxiom) :=
  { n with declared := records.axioms.keys.foldl addNew n.declared }.retainFrom
    records.axioms 1 (candidates records)

/-- Name lemmas from a rank on; the conjecture keeps its own name. -/
def renumberFrom (n : Naming) (records : Records) (rank : Nat) : List Text → Naming
  | [] => n
  | name :: rest =>
    if records.isConjectureName name then
      { n with lemmas := n.lemmas.insert name name }.renumberFrom records rank rest
    else
      { n with lemmas := n.lemmas.insert name (lemmaName rank) }.renumberFrom
        records (rank + 1) rest

/-- Name all lemmas in the order of their discovery. -/
def renumber (n : Naming) (records : Records) : Naming :=
  n.renumberFrom records 1 records.lemmas.keys

/-- The name that a token stands for: a lemma, a retained axiom, the hypothesis, or an axiom
    that is not retained. -/
def resolve (n : Naming) (token : Text) (context : Option Text) : Except MissingDependency Text :=
  match n.lemmas.get? token with
  | some name => .ok name
  | none =>
    match n.axioms.get? token with
    | some name => .ok name
    | none =>
      if token = Dependency.hypothesisToken then .ok n.hypothesis
      else if token ∈ n.declared then .ok token
      else .error ⟨token, context⟩

/-- The name that a dependency stands for. A lemma cited by its number is a lemma and nothing
    else. -/
def resolveDependency (n : Naming) (d : Dependency) (context : Option Text) :
    Except MissingDependency Text :=
  match d.kind with
  | .hypothesis => .ok n.hypothesis
  | .mentioned =>
    match n.lemmas.get? d.name with
    | some name => .ok name
    | none => .error ⟨d.name, context⟩
  | _ => n.resolve d.name context

/-- The given names by token: retained axioms first, then lemmas. -/
def mapping (n : Naming) : Registry Text Text := n.axioms.insertAll n.lemmas.entries

end Naming

/-- All statements of a script with their names. -/
structure Resolution where
  lemmas : List ResolvedLemma
  axioms : List RetainedAxiom
  mapping : Registry Text Text
  deriving DecidableEq

namespace Naming

/-- Where a dependency of a recorded lemma is cited. -/
def dependencyContext (record : LemmaRecord) : Text :=
  lit "dependency of " ++ record.name ++ lit " (line " ++ decimal record.line ++ lit ")"

/-- A recorded lemma with its names in the script. -/
def resolveLemma (n : Naming) (records : Records) (record : LemmaRecord) :
    Except MissingDependency ResolvedLemma := do
  let name ← n.resolve record.name none
  let dependencies ← record.dependencies.mapM fun d =>
    n.resolveDependency d (some (dependencyContext record))
  return { sourceName := record.name
           name := name
           expression := record.expression
           dependencies := dependencies
           isConjecture := records.isConjectureName record.name
           proof := records.proofs.get? record.name }

/-- Name everything that was recorded. -/
def finalize (n : Naming) (records : Records) : Naming × Except MissingDependency Resolution :=
  match n.retain records with
  | (n, .error e) => (n, .error e)
  | (n, .ok axioms) =>
    let n := n.renumber records
    (n, do
      let lemmas ← records.lemmas.values.mapM (n.resolveLemma records)
      return ⟨lemmas, axioms, n.mapping⟩)

end Naming

end MagmaTrace
