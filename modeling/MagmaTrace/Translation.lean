import MagmaTrace.Script.Basic
import MagmaTrace.Transcript.Scanner

/-! # From a transcript to a script

The transcript is scanned, its declared formulas are looked for, its names are given, and the
script is written. Each stage that succeeds is reported in one line.
-/

namespace MagmaTrace

open Text

/-- A script's text with what can be said about it. -/
structure Translation where
  document : Text
  hypothesis : Text
  conjecture : Text
  lemmaCount : Nat
  retainedAxioms : List Text
  mapping : Registry Text Text
  deriving DecidableEq

namespace Translation

def scannedReport (r : Records) : Text :=
  lit "Segmented " ++ decimal r.axioms.size ++ lit " inline axioms, " ++ decimal r.lemmas.size ++
    lit " lemmas, " ++ decimal r.proofs.size ++ lit " proof blocks"

def resolvedReport (r : Resolution) : Text :=
  lit "Resolved " ++ decimal r.mapping.size ++ lit " names, retained " ++
    decimal r.axioms.length ++ lit " axioms"

def writtenReport (document : Text) : Text :=
  lit "Rendered " ++ decimal (document.count newline + 1) ++ lit " lines"

/-- The two declared formulas of a transcript. -/
def declared (r : Records) : Except TranslationError (Declaration × Declaration) :=
  match r.hypothesis, r.conjecture with
  | none, _ => .error (.missingRecord .hypothesis)
  | some _, none => .error (.missingRecord .conjecture)
  | some hypothesis, some conjecture => .ok (hypothesis, conjecture)

/-- Translate a transcript. The reports of the stages passed come first. -/
def ofTranscript (text : Text) (o : Options) : List Text × Except TranslationError Translation :=
  match Records.ofTranscript text with
  | .error e => ([], .error (.malformed e))
  | .ok records =>
    let scanned := scannedReport records
    match declared records with
    | .error e => ([scanned], .error e)
    | .ok (hypothesis, conjecture) =>
      match (Naming.initial o.hypothesisName).finalize records with
      | (_, .error e) => ([scanned], .error (.missingDependency e))
      | (naming, .ok resolution) =>
        let resolved := resolvedReport resolution
        match Script.assemble hypothesis conjecture naming resolution with
        | .error e => ([scanned, resolved], .error e)
        | .ok script =>
          let document := script.write o
          ([scanned, resolved, writtenReport document],
            .ok { document := document
                  hypothesis := hypothesis.name
                  conjecture := conjecture.name
                  lemmaCount := (resolution.lemmas.filter (!·.isConjecture)).length
                  retainedAxioms := resolution.axioms.map (·.name)
                  mapping := resolution.mapping })

end Translation

end MagmaTrace
