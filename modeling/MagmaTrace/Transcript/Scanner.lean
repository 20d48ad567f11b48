import MagmaTrace.Transcript.Event
import MagmaTrace.Transcript.Records

/-! # Scanning a transcript

A scanner goes through a transcript line by line and records what each line says. A line that
states a malformed expression is an error; what was recorded before it stays.
-/

namespace MagmaTrace

open Text

/-- A scanner: the phase it is in, the block that is open, an unfinished declaration, and the
    records so far. -/
structure Scanner where
  phase : Phase
  current : Option ProofBlock
  collector : Collector
  records : Records
  deriving DecidableEq

namespace Scanner

def initial : Scanner := ⟨.header, none, none, .empty⟩

/-- Read a formula that stands on a line; a fault in it is shown with the whole line. -/
def readOn (line : Nat) (source formula : Text) : Except LineError Expression :=
  (Expression.ofFormula formula).mapError fun e => ⟨line, source, e⟩

/-- Read an expression that stands on a line without a quantifier. -/
def readPlainOn (line : Nat) (source statement : Text) : Except LineError Expression :=
  (Expression.read statement).mapError fun e => ⟨line, source, e⟩

/-- The name of the block under a heading: the one it gives, else the conjecture's for a goal,
    else one made from its number. -/
def blockName (r : Records) (heading : Heading) : Text :=
  match heading.name, heading.keyword, r.conjecture with
  | some name, _, _ => name
  | none, .goal, some conjecture => conjecture.name
  | none, _, _ => Dependency.lemmaName heading.number.text

/-- End the open block and record its proof. -/
def closeBlock (s : Scanner) : Scanner :=
  { s with
    current := none
    records := match s.current with
      | none => s.records
      | some block => s.records.addProof block }

/-- Open a block. Its statement is recorded as a lemma, unless it is the hypothesis or already
    a lemma; a malformed statement leaves the block open and nothing recorded. -/
def openBlock (s : Scanner) (line : Nat) (source : Text) (heading : Heading) :
    Scanner × Option LineError :=
  let name := blockName s.records heading
  let s := { s with current := some ⟨name, []⟩ }
  if s.records.isHypothesisName name || s.records.lemmas.contains name then (s, none)
  else match readOn line source heading.statement with
    | .error e => (s, some e)
    | .ok expression =>
      ({ s with records := s.records.addLemma ⟨name, expression, [], line⟩ }, none)

/-- Record what a line says. -/
def apply (s : Scanner) (line : Nat) (source : Text) : Event → Scanner × Option LineError
  | .axiomStated name statement =>
    match readPlainOn line source statement with
    | .error e => (s, some e)
    | .ok expression => ({ s with records := s.records.addAxiom ⟨name, expression, line⟩ }, none)
  | .lemmaStated name statement hints =>
    match readOn line source statement with
    | .error e => (s, some e)
    | .ok expression =>
      ({ s with records := s.records.addLemma
                  ⟨name, expression, hints.map Dependency.ofName, line⟩ }, none)
  | .blockOpened heading => s.openBlock line source heading
  | .proofLine text references =>
    ({ s with
       current := s.current.map fun block => { block with lines := block.lines ++ [⟨text, line⟩] }
       records := s.records.addReferences references }, none)
  | .blockClosed => (s.closeBlock, none)
  | .other text =>
    let (collector, found) := s.collector.feed text line
    ({ s with
       collector := collector
       records := match found with
         | none => s.records
         | some declaration => s.records.addDeclaration declaration }, none)

/-- Record one event after another, up to the first error. -/
def applyAll (s : Scanner) (line : Nat) (source : Text) : List Event → Scanner × Option LineError
  | [] => (s, none)
  | event :: events =>
    match s.apply line source event with
    | (s, some e) => (s, some e)
    | (s, none) => s.applyAll line source events

/-- Take up one line of the transcript. -/
def feed (s : Scanner) (rawLine : Text) (line : Nat) : Scanner × Option LineError :=
  let (phase, events) := s.phase.step rawLine
  { s with phase := phase }.applyAll line (trim rawLine) events

/-- Take up lines numbered from `line` on. -/
def feedAll (s : Scanner) (line : Nat) : List Text → Except LineError Scanner
  | [] => .ok s
  | rawLine :: rest =>
    match s.feed rawLine line with
    | (_, some e) => .error e
    | (s, none) => s.feedAll (line + 1) rest

/-- End the transcript: a block left open ends with it. -/
def finish (s : Scanner) : Scanner :=
  { s.closeBlock with
    phase := match s.phase with
      | .block => .proofs
      | phase => phase }

end Scanner

/-- The records of a whole transcript. -/
def Records.ofTranscript (text : Text) : Except LineError Records := do
  let s ← Scanner.initial.feedAll 1 (lines text)
  return s.finish.records

end MagmaTrace
