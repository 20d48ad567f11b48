import MagmaTrace.Command.Workplace
import MagmaTrace.Log.Summary
import MagmaTrace.Path
import MagmaTrace.Problem.Generation

/-! # Commands

Each command works out its whole result from what it reads: what it has to say and what is to
be written. Nothing is written on the way.
-/

namespace MagmaTrace

open Text

/-- What can be asked for. -/
inductive Command where
  /-- Translate a transcript, and show the script or write it to its file. -/
  | translate (transcript : Text) (shown : Bool)
  /-- Write the problems for a file of proofs; the directories may be left open. -/
  | generate (proofs : Text) (equations directory : Option Text)
  /-- Summarize the logs in a directory. -/
  | summarize (logs : Text)
  deriving DecidableEq

/-- The result of a command: what it writes, says and remarks. -/
structure Product where
  delivery : Option Delivery
  output : Text
  remarks : Text
  deriving DecidableEq

namespace Command

/-- Lines as they are put out, each with its end. -/
def linesOut (lines : List Text) : Text := lines.flatMap (· ++ [newline])

/-- Lines that are put out unless only errors are wanted. -/
def unlessQuiet (s : Settings) (lines : List Text) : Text :=
  if s.verbosity = .minimal then [] else linesOut lines

/-- The stages of a translation, put out if they are wanted. -/
def stages (s : Settings) (reports : List Text) : Text :=
  if s.verbosity = .detailed then linesOut (reports.map (lit "  " ++ ·)) else []

/-- The script of a transcript in its file. -/
def scriptProduct (w : Workplace) (s : Settings) (transcript : Text) (t : Translation) : Product :=
  let path := Path.ofScript (Path.separator :: Path.write w.current) transcript s.outputDir
  { delivery := some ⟨Path.directory path, [(path, t.document)]⟩
    output := unlessQuiet s
      [ lit "✓ Generated Lean file: " ++ path,
        lit "  " ++ decimal t.lemmaCount ++ lit " lemmas, " ++ decimal t.retainedAxioms.length ++
          lit " retained axioms" ]
    remarks := [] }

/-- Translate a transcript. What is said about the stages comes first. -/
def translateProduct (w : Workplace) (s : Settings) (transcript : Text) (shown : Bool) :
    Text × Except CommandError Product :=
  match w.read .input transcript with
  | .error e => ([], .error e)
  | .ok content =>
    match Translation.ofTranscript content s.options with
    | (reports, .error e) => (stages s reports, .error (.translation e))
    | (reports, .ok t) =>
      (stages s reports,
        .ok (if shown then ⟨none, t.document, []⟩ else scriptProduct w s transcript t))

/-- The directory of the equation database when none is named. -/
def equationsDirectory : Text := Path.append Path.problemRoot (lit "Equations")

/-- The problems for a file of proofs in their directory. -/
def problemsProduct (s : Settings) (directory : Text) (g : Generation) : Product :=
  let files := g.problems.map fun p => (Path.append directory p.fileName, p.content)
  { delivery := some ⟨directory, files⟩
    output := unlessQuiet s
      [ lit "✓ Written: " ++ decimal g.problems.length ++ lit " to " ++ directory,
        lit "Skipped: " ++ decimal g.skipped.length ]
    remarks := unlessQuiet s
      (g.skipped.map fun skipped => lit "Skipping " ++ skipped ++ lit ": missing equation") }

/-- Read the proofs, then the equation database, and write the problems. -/
def generateProduct (w : Workplace) (s : Settings) (proofs : Text)
    (equations directory : Option Text) : Except CommandError Product := do
  let content ← w.read .input proofs
  let sources ← w.readAll .equations EquationIndex.isSourceName
    (equations.getD equationsDirectory)
  let index := EquationIndex.ofSources (sources.map (·.2))
  let generation ← (Generation.ofProofs content index).mapError .equation
  return problemsProduct s (directory.getD (Path.ofProblems proofs Path.problemRoot)) generation

/-- Read the logs and report on them. -/
def summarizeProduct (w : Workplace) (logs : Text) : Except CommandError Product := do
  let files ← w.readAll .logs LogReport.isLogName logs
  let report := LogReport.ofLogs LogSummary.standardThreshold files
  return ⟨none, linesOut [report.write], []⟩

/-- What a command says on its way, and its result. -/
def product (w : Workplace) (s : Settings) : Command → Text × Except CommandError Product
  | translate transcript shown => translateProduct w s transcript shown
  | generate proofs equations directory => ([], generateProduct w s proofs equations directory)
  | summarize logs => ([], summarizeProduct w logs)

end Command

end MagmaTrace
