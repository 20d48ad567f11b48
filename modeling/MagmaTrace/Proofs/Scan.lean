import Mathlib.Data.List.Induction
import MagmaTrace.Proofs.Lookup
import MagmaTrace.Proofs.Outcome
import MagmaTrace.Transcript.Scanner

/-! # Runs of the scanner

A line says one of a few things, each of them only in some phases and borne out by its text, and
each changes the scanner in one of a few ways. What every such change keeps holds after a whole
transcript.
-/

namespace MagmaTrace

open Text

namespace Event

/-- An event that a line of given text can stand for. -/
inductive IsSaidBy (line : Text) : Event → Prop where
  | axiomStated {name statement : Text} (reads : axiomLine? line = some (.axiomStated name statement)) :
      IsSaidBy line (.axiomStated name statement)
  | lemmaStated {name statement : Text} {hints : List Text}
      (marked : lemmaMarks.any (startsWith · line) = true)
      (reads : lemmaLine? line = some (.lemmaStated name statement hints)) :
      IsSaidBy line (.lemmaStated name statement hints)
  | blockOpened {heading : Heading} (reads : heading? line = some heading) :
      IsSaidBy line (.blockOpened heading)
  | proofLine : IsSaidBy line (.proofLine line (Dependency.references line))
  | blockClosed : IsSaidBy line .blockClosed
  | other : IsSaidBy line (.other line)

theorem eq_axiomStated_of_axiomLine? {line : Text} {event : Event}
    (h : axiomLine? line = some event) : ∃ name statement, event = .axiomStated name statement := by
  unfold axiomLine? at h
  simp only [Option.bind_eq_bind, Option.bind_eq_some_iff, Option.pure_def, Option.some.injEq] at h
  obtain ⟨_, _, _, _, _, _, _, _, _, _, _, _, _, _, rfl⟩ := h
  exact ⟨_, _, rfl⟩

theorem eq_lemmaStated_of_lemmaLine? {line : Text} {event : Event}
    (h : lemmaLine? line = some event) :
    ∃ name statement hints, event = .lemmaStated name statement hints := by
  unfold lemmaLine? at h
  simp only [Option.bind_eq_bind, Option.bind_eq_some_iff, Option.pure_def, Option.some.injEq] at h
  obtain ⟨_, _, _, _, rfl⟩ := h
  exact ⟨_, _, _, rfl⟩

end Event

namespace Phase

open Event

/-- What a line without white space around it says in a phase, and the phase after it. -/
inductive Moves (line : Text) : Phase → Phase → List Event → Prop where
  | axiomStated {phase : Phase} {name statement : Text}
      (reads : axiomLine? line = some (.axiomStated name statement)) :
      Moves line phase phase [.axiomStated name statement]
  | marker (phase : Phase) : Moves line phase (if phase = .header then .proofs else phase) []
  | lemmaStated {phase : Phase} {name statement : Text} {hints : List Text}
      (marked : lemmaMarks.any (startsWith · line) = true)
      (reads : lemmaLine? line = some (.lemmaStated name statement hints)) :
      Moves line phase phase [.lemmaStated name statement hints]
  | undeclared (phase : Phase) : Moves line phase phase []
  | heading {heading : Heading} (reads : heading? line = some heading) :
      Moves line .proofs .block [.blockOpened heading]
  | nextHeading {heading : Heading} (reads : heading? line = some heading) :
      Moves line .block .block [.blockClosed, .blockOpened heading]
  | result : Moves line .block .proofs [.blockClosed]
  | proofLine : Moves line .block .block [.proofLine line (Dependency.references line)]
  | skipped : Moves line .block .block []
  | other {phase : Phase} (outside : phase ≠ .block) : Moves line phase phase [.other line]

theorem moves_stepInside (phase : Phase) (line : Text) :
    Moves line phase (phase.stepInside line).1 (phase.stepInside line).2 := by
  unfold stepInside
  split
  · next reads => exact .heading reads
  · next reads => exact .nextHeading reads
  · split
    · exact .result
    · split
      · exact .proofLine
      · exact .skipped
  · next notProofs notHeading notBlock =>
      refine .other fun inside => ?_
      subst inside
      rcases reads : heading? line with _ | heading
      · exact notBlock rfl reads
      · exact notHeading heading rfl reads

theorem moves_step (phase : Phase) (rawLine : Text) :
    Moves (trim rawLine) phase (phase.step rawLine).1 (phase.step rawLine).2 := by
  rcases reads : axiomLine? (trim rawLine) with _ | event
  · by_cases isMarker : startsWith proofMarker (trim rawLine) = true
    · simp only [step, reads, isMarker, if_true]
      cases phase with
      | header => exact .marker .header
      | proofs => exact .marker .proofs
      | block => exact .marker .block
    · by_cases marked : lemmaMarks.any (startsWith · (trim rawLine)) = true
      · simp only [step, reads, isMarker, marked, if_true, if_false, Bool.false_eq_true]
        rcases declared : lemmaLine? (trim rawLine) with _ | event
        · exact .undeclared phase
        · obtain ⟨name, statement, hints, rfl⟩ := eq_lemmaStated_of_lemmaLine? declared
          exact .lemmaStated marked declared
      · simp only [step, reads, isMarker, marked, if_false, Bool.false_eq_true]
        exact moves_stepInside phase (trim rawLine)
  · simp only [step, reads]
    obtain ⟨name, statement, rfl⟩ := eq_axiomStated_of_axiomLine? reads
    exact .axiomStated reads

/-- What a line says is borne out by its text. -/
theorem isSaidBy_of_step {phase : Phase} {rawLine : Text} {event : Event}
    (h : event ∈ (phase.step rawLine).2) : IsSaidBy (trim rawLine) event := by
  have moves := phase.moves_step rawLine
  generalize (phase.step rawLine).1 = next, (phase.step rawLine).2 = events at moves h
  cases moves with
  | axiomStated reads =>
      rw [List.mem_singleton.mp h]
      exact .axiomStated reads
  | lemmaStated marked reads =>
      rw [List.mem_singleton.mp h]
      exact .lemmaStated marked reads
  | heading reads =>
      rw [List.mem_singleton.mp h]
      exact .blockOpened reads
  | nextHeading reads =>
      rcases List.mem_pair.mp h with rfl | rfl
      · exact .blockClosed
      · exact .blockOpened reads
  | result =>
      rw [List.mem_singleton.mp h]
      exact .blockClosed
  | proofLine =>
      rw [List.mem_singleton.mp h]
      exact .proofLine
  | other =>
      rw [List.mem_singleton.mp h]
      exact .other
  | marker | undeclared | skipped => cases h

end Phase

/-! ## Changes of the records -/

namespace Records

/-- What a finished proof leaves as it is: all but the proofs and what is on record about each
    lemma. -/
structure Frame (r r' : Records) : Prop where
  hypothesis : r'.hypothesis = r.hypothesis
  conjecture : r'.conjecture = r.conjecture
  axioms : r'.axioms = r.axioms
  used : r'.used = r.used
  keys : r'.lemmas.keys = r.lemmas.keys

theorem Frame.refl (r : Records) : r.Frame r := ⟨rfl, rfl, rfl, rfl, rfl⟩

theorem frame_addProof (r : Records) (block : ProofBlock) : r.Frame (r.addProof block) := by
  unfold addProof
  split
  · exact .refl r
  · dsimp only
    split
    · exact ⟨rfl, rfl, rfl, rfl, rfl⟩
    · next record found =>
        have known : block.name ∈ r.lemmas.keys := Registry.mem_keys_iff.mpr ⟨record, found⟩
        refine ⟨rfl, rfl, rfl, rfl, ?_⟩
        rw [Registry.keys_insert, if_pos known]

/-- A finished proof adds at most its own block to those that are stored. -/
theorem holds_proofs_addProof {p : Text → ProofBlock → Prop} {r : Records} (h : r.proofs.Holds p)
    {block : ProofBlock} (new : p block.name block) : (r.addProof block).proofs.Holds p := by
  unfold addProof
  split
  · exact h
  · dsimp only
    split
    · exact h.insert new
    · exact h.insert new

theorem addDeclaration_eq (r : Records) (d : Declaration) : ∃ hypothesis conjecture,
    r.addDeclaration d = { r with hypothesis := hypothesis, conjecture := conjecture } := by
  unfold addDeclaration
  split
  · exact ⟨_, _, rfl⟩
  · exact ⟨_, _, rfl⟩

end Records

namespace Scanner

theorem frame_closeBlock (s : Scanner) : s.records.Frame s.closeBlock.records := by
  unfold closeBlock
  cases s.current with
  | none => exact .refl s.records
  | some block => exact s.records.frame_addProof block

/-! ## Events -/

/-- The ways in which an event on a line changes a scanner, errors apart. -/
inductive Takes (line : Nat) (s : Scanner) : Event → Scanner → Prop where
  | axiomStated {name statement : Text} {expression : Expression}
      (read : Expression.read statement = .ok expression) :
      Takes line s (.axiomStated name statement)
        { s with records := s.records.addAxiom ⟨name, expression, line⟩ }
  | lemmaStated {name statement : Text} {hints : List Text} {expression : Expression}
      (read : Expression.ofFormula statement = .ok expression) :
      Takes line s (.lemmaStated name statement hints)
        { s with records :=
                   s.records.addLemma ⟨name, expression, hints.map Dependency.ofName, line⟩ }
  | knownBlockOpened {heading : Heading}
      (known : s.records.isHypothesisName (blockName s.records heading) = true ∨
        s.records.lemmas.contains (blockName s.records heading) = true) :
      Takes line s (.blockOpened heading)
        { s with current := some ⟨blockName s.records heading, []⟩ }
  | newBlockOpened {heading : Heading} {expression : Expression}
      (notHypothesis : s.records.isHypothesisName (blockName s.records heading) = false)
      (new : s.records.lemmas.contains (blockName s.records heading) = false)
      (read : Expression.ofFormula heading.statement = .ok expression) :
      Takes line s (.blockOpened heading)
        { s with current := some ⟨blockName s.records heading, []⟩
                 records := s.records.addLemma ⟨blockName s.records heading, expression, [], line⟩ }
  | proofLine {text : Text} {references : List Text} :
      Takes line s (.proofLine text references)
        { s with
          current := s.current.map fun block => { block with lines := block.lines ++ [⟨text, line⟩] }
          records := s.records.addReferences references }
  | blockClosed : Takes line s .blockClosed s.closeBlock
  | otherUnfinished {text : Text} {collector : Collector}
      (fed : s.collector.feed text line = (collector, none)) :
      Takes line s (.other text) { s with collector := collector }
  | otherDeclared {text : Text} {collector : Collector} {declaration : Declaration}
      (fed : s.collector.feed text line = (collector, some declaration)) :
      Takes line s (.other text)
        { s with collector := collector
                 records := s.records.addDeclaration declaration }

theorem readOn_ok_iff {line : Nat} {source formula : Text} {expression : Expression} :
    readOn line source formula = .ok expression ↔ Expression.ofFormula formula = .ok expression :=
  mapError_ok_iff

theorem readPlainOn_ok_iff {line : Nat} {source statement : Text} {expression : Expression} :
    readPlainOn line source statement = .ok expression ↔
      Expression.read statement = .ok expression :=
  mapError_ok_iff

theorem takes_of_openBlock {s s' : Scanner} {line : Nat} {source : Text} {heading : Heading}
    (h : s.openBlock line source heading = (s', none)) : Takes line s (.blockOpened heading) s' := by
  by_cases known : (s.records.isHypothesisName (blockName s.records heading) ||
      s.records.lemmas.contains (blockName s.records heading)) = true
  · simp only [openBlock, known, if_true] at h
    cases h
    exact .knownBlockOpened ((Bool.or_eq_true _ _).mp known)
  · rcases read : readOn line source heading.statement with e | expression
    · simp only [openBlock, known, read, if_false, Bool.false_eq_true] at h
      cases h
    · simp only [openBlock, known, read, if_false, Bool.false_eq_true] at h
      cases h
      obtain ⟨notHypothesis, new⟩ := Bool.or_eq_false_iff.mp (Bool.not_eq_true _ ▸ known)
      exact .newBlockOpened notHypothesis new (readOn_ok_iff.mp read)

theorem takes_of_apply {s s' : Scanner} {line : Nat} {source : Text} {event : Event}
    (h : s.apply line source event = (s', none)) : Takes line s event s' := by
  cases event with
  | axiomStated name statement =>
      rcases read : readPlainOn line source statement with e | expression
      · simp only [apply, read] at h
        cases h
      · simp only [apply, read] at h
        cases h
        exact .axiomStated (readPlainOn_ok_iff.mp read)
  | lemmaStated name statement hints =>
      rcases read : readOn line source statement with e | expression
      · simp only [apply, read] at h
        cases h
      · simp only [apply, read] at h
        cases h
        exact .lemmaStated (readOn_ok_iff.mp read)
  | blockOpened heading => exact takes_of_openBlock h
  | proofLine text references =>
      cases h
      exact .proofLine
  | blockClosed =>
      cases h
      exact .blockClosed
  | other text =>
      rcases fed : s.collector.feed text line with ⟨collector, _ | declaration⟩
      · simp only [apply, fed] at h
        cases h
        exact .otherUnfinished fed
      · simp only [apply, fed] at h
        cases h
        exact .otherDeclared fed

/-! ## Whole lines and whole transcripts -/

/-- The scanner after some lines of a transcript. -/
def after (transcript : List Text) : Except LineError Scanner := initial.feedAll 1 transcript

theorem applyAll_preserves {P : Scanner → Prop} {line : Nat} {source : Text} {events : List Event}
    (takes : ∀ s event s', P s → event ∈ events → Takes line s event s' → P s')
    {s s' : Scanner} (h : s.applyAll line source events = (s', none)) (start : P s) : P s' := by
  induction events generalizing s with
  | nil =>
      cases h
      exact start
  | cons event events ih =>
      rcases applied : s.apply line source event with ⟨next, _ | e⟩
      · simp only [applyAll, applied] at h
        have taken := takes s event next start (List.mem_cons_self ..) (takes_of_apply applied)
        exact ih (fun s e s' hs mem => takes s e s' hs (List.mem_cons_of_mem _ mem)) h taken
      · simp only [applyAll, applied] at h
        cases h

/-- What no change of phase and nothing said by a line undoes is kept by taking up the line. -/
theorem feed_preserves {P : Scanner → Prop} {line : Nat} {rawLine : Text}
    (changes : ∀ s phase, P s → P { s with phase := phase })
    (takes : ∀ s event s', P s → Event.IsSaidBy (trim rawLine) event → Takes line s event s' → P s')
    {s s' : Scanner} (h : s.feed rawLine line = (s', none)) (start : P s) : P s' :=
  applyAll_preserves
    (fun s event s' hs mem => takes s event s' hs (Phase.isSaidBy_of_step mem)) h
    (changes s _ start)

theorem feedAll_cons {s s' : Scanner} {line : Nat} {rawLine : Text}
    (fed : s.feed rawLine line = (s', none)) (rest : List Text) :
    s.feedAll line (rawLine :: rest) = s'.feedAll (line + 1) rest := by
  simp only [feedAll, fed]

theorem feedAll_append {s s' : Scanner} {line : Nat} {earlier : List Text}
    (h : s.feedAll line earlier = .ok s') (later : List Text) :
    s.feedAll line (earlier ++ later) = s'.feedAll (line + earlier.length) later := by
  induction earlier generalizing s line with
  | nil =>
      cases h
      rfl
  | cons first rest ih =>
      rcases fed : s.feed first line with ⟨next, _ | e⟩
      · rw [feedAll_cons fed] at h
        rw [List.cons_append, feedAll_cons fed, ih h, List.length_cons]
        congr 1
        omega
      · simp only [feedAll, fed] at h
        cases h

/-- Lines fail when one of them does after those before it, and with its error. -/
theorem feedAll_error_iff {s : Scanner} {line : Nat} {transcript : List Text} {e : LineError} :
    s.feedAll line transcript = .error e ↔ ∃ earlier rawLine later before s',
      transcript = earlier ++ rawLine :: later ∧ s.feedAll line earlier = .ok before ∧
        before.feed rawLine (line + earlier.length) = (s', some e) := by
  constructor
  · intro failed
    induction transcript generalizing s line with
    | nil => cases failed
    | cons rawLine rest ih =>
        rcases fed : s.feed rawLine line with ⟨next, _ | e'⟩
        · rw [feedAll_cons fed] at failed
          obtain ⟨earlier, other, later, before, s', rfl, succeed, fails⟩ := ih failed
          refine ⟨rawLine :: earlier, other, later, before, s', rfl, ?_, ?_⟩
          · rw [feedAll_cons fed, succeed]
          · rw [List.length_cons, Nat.add_comm earlier.length, ← Nat.add_assoc, fails]
        · simp only [feedAll, fed] at failed
          cases failed
          exact ⟨[], rawLine, rest, s, next, rfl, rfl, fed⟩
  · rintro ⟨earlier, rawLine, later, before, s', rfl, succeed, fails⟩
    rw [feedAll_append succeed, feedAll, fails]

theorem feedAll_append_error {s : Scanner} {line : Nat} {earlier : List Text} {e : LineError}
    (h : s.feedAll line earlier = .error e) (later : List Text) :
    s.feedAll line (earlier ++ later) = .error e := by
  obtain ⟨before, rawLine, rest, s₁, s', rfl, succeed, fails⟩ := feedAll_error_iff.mp h
  exact feedAll_error_iff.mpr
    ⟨before, rawLine, rest ++ later, s₁, s', List.append_assoc .., succeed, fails⟩

theorem feedAll_append_singleton {s s' : Scanner} {line : Nat} {transcript : List Text}
    {rawLine : Text} : s.feedAll line (transcript ++ [rawLine]) = .ok s' ↔
      ∃ before, s.feedAll line transcript = .ok before ∧
        before.feed rawLine (line + transcript.length) = (s', none) := by
  induction transcript generalizing s line with
  | nil =>
      rcases fed : s.feed rawLine line with ⟨next, _ | e⟩
      · simp [feedAll, fed]
      · simp [feedAll, fed]
  | cons first rest ih =>
      rcases fed : s.feed first line with ⟨next, _ | e⟩
      · simp only [List.cons_append, feedAll, fed, ih, List.length_cons, Nat.add_assoc,
          Nat.add_comm 1]
      · simp [feedAll, fed]

theorem takes_of_applyAll {s s' : Scanner} {line : Nat} {source : Text} {event : Event}
    (h : s.applyAll line source [event] = (s', none)) : Takes line s event s' := by
  rcases applied : s.apply line source event with ⟨next, _ | e⟩
  · simp only [applyAll, applied] at h
    cases h
    exact takes_of_apply applied
  · simp only [applyAll, applied] at h
    cases h

/-- Induction on the lines taken up, the last line last. -/
theorem after_induction {P : List Text → Scanner → Prop} (start : P [] initial)
    (step : ∀ transcript rawLine s s', after transcript = .ok s → P transcript s →
      s.feed rawLine (transcript.length + 1) = (s', none) → P (transcript ++ [rawLine]) s')
    {transcript : List Text} {s : Scanner} (h : after transcript = .ok s) : P transcript s := by
  induction transcript using List.reverseRecOn generalizing s with
  | nil =>
      cases h
      exact start
  | append_singleton transcript rawLine ih =>
      obtain ⟨before, earlier, fed⟩ := feedAll_append_singleton.mp h
      rw [Nat.add_comm] at fed
      exact step transcript rawLine before s earlier (ih earlier) fed

/-- What holds at first and is kept by whatever lines say holds after any lines. -/
theorem after_preserves {P : Scanner → Prop} (start : P initial)
    (changes : ∀ s phase, P s → P { s with phase := phase })
    (takes : ∀ line text s event s', P s → Event.IsSaidBy text event → Takes line s event s' → P s')
    {transcript : List Text} {s : Scanner} (h : after transcript = .ok s) : P s :=
  after_induction (P := fun _ s => P s) start
    (fun transcript rawLine _ _ _ hs fed =>
      feed_preserves changes (takes (transcript.length + 1) (trim rawLine)) fed hs) h

end Scanner

theorem Records.ofTranscript_ok_iff {text : Text} {r : Records} :
    ofTranscript text = .ok r ↔ ∃ s, Scanner.after (lines text) = .ok s ∧ s.finish.records = r := by
  simp only [ofTranscript, Scanner.after, bind_ok_iff, pure_ok_iff]

end MagmaTrace
