import MagmaTrace.Proofs.Anchors
import MagmaTrace.Proofs.BlockOrder
import MagmaTrace.Proofs.Margins
import MagmaTrace.Proofs.Passages
import MagmaTrace.Proofs.Provenance

/-! # How a scan ends

A scan ends at the first line that fails, or after the last line. A line that fails may have ended
the open block before, and does nothing else to what is on record
(`Scanner.records_kept_on_error`). A block that is open after the last line is closed just as a
result line would close it (`Records.ofTranscript_terminated`).
-/

namespace MagmaTrace

open Text

/-! ## Headings -/

namespace Event

/-- Whether a line is the heading of a block. -/
def isHeading (rawLine : Text) : Bool := (heading? (trim rawLine)).isSome

theorem heading?_of_axiomLine? {line : Text} {event : Event} (reads : axiomLine? line = some event) :
    heading? line = none := by
  have begins : ∃ rest, line = lit "Axiom" ++ rest := by
    unfold axiomLine? at reads
    simp only [Option.bind_eq_bind, Option.bind_eq_some_iff] at reads
    obtain ⟨rest, stripped, -⟩ := reads
    exact ⟨rest, strip?_eq_some.mp stripped⟩
  obtain ⟨rest, rfl⟩ := begins
  exact heading?_eq_none fun keyword => by cases keyword <;> rfl

theorem heading?_of_marked {line : Text} (marked : lemmaMarks.any (startsWith · line) = true) :
    heading? line = none := by
  obtain ⟨rest, rfl⟩ := comment_of_marked marked
  exact heading?_eq_none fun keyword => by cases keyword <;> rfl

end Event

/-! ## What closing a block keeps -/

/-- What stands on record about a lemma besides what it depends on. -/
def LemmaRecord.stated (record : LemmaRecord) : Text × Expression × Nat :=
  (record.name, record.expression, record.line)

theorem Records.stated_addProof (r : Records) (block : ProofBlock) :
    (r.addProof block).lemmas.mapValues (·.stated) = r.lemmas.mapValues (·.stated) := by
  unfold addProof
  split
  · rfl
  · dsimp only
    split
    · rfl
    · next record found =>
        have same : (r.lemmas.mapValues (·.stated)).get? block.name = some record.stated := by
          rw [Registry.get?_mapValues, found, Option.map_some]
        rw [Registry.insert_mapValues]
        exact Registry.insert_eq_self same

namespace Scanner

variable {s s' : Scanner} {rawLine source : Text} {line : Nat} {event : Event} {e : LineError}

theorem stated_closeBlock (s : Scanner) :
    s.closeBlock.records.lemmas.mapValues (·.stated) = s.records.lemmas.mapValues (·.stated) := by
  unfold closeBlock
  cases s.current with
  | none => rfl
  | some block => exact s.records.stated_addProof block

/-! ## Lines that fail -/

/-- What an event says is read before it is put on record. -/
theorem records_of_apply_error (h : s.apply line source event = (s', some e)) :
    s'.records = s.records := by
  cases event with
  | axiomStated | lemmaStated =>
      simp only [apply] at h
      split at h
      · cases h
        rfl
      · cases h
  | blockOpened heading =>
      simp only [apply, openBlock] at h
      split at h
      · cases h
      · split at h
        · cases h
          rfl
        · cases h
  | proofLine | blockClosed | other => cases h

theorem records_of_applyAll_error (h : s.applyAll line source [event] = (s', some e)) :
    s'.records = s.records := by
  rcases applied : s.apply line source event with ⟨next, _ | e'⟩
  · simp only [applyAll, applied] at h
    cases h
  · simp only [applyAll, applied] at h
    cases h
    exact records_of_apply_error applied

theorem records_of_feed_error (holds : s.HoldsBlock) (h : s.feed rawLine line = (s', some e)) :
    s'.records = if Event.isHeading rawLine then s.closeBlock.records else s.records := by
  have moves := s.phase.moves_step rawLine
  unfold HoldsBlock at holds
  unfold feed at h
  unfold Event.isHeading
  generalize s.phase.step rawLine = stepped at moves h
  obtain ⟨next, events⟩ := stepped
  dsimp only at moves h
  generalize s.phase = phase at moves holds
  cases moves with
  | axiomStated reads =>
      rw [records_of_applyAll_error h, Event.heading?_of_axiomLine? reads]
      rfl
  | lemmaStated marked =>
      rw [records_of_applyAll_error h, Event.heading?_of_marked marked]
      rfl
  | heading reads =>
      -- No block is open here, so there is nothing to close.
      have idle : s.current = none := by simpa using holds
      rw [records_of_applyAll_error h, reads]
      simp [closeBlock, idle]
  | @nextHeading heading reads =>
      have closed : (closeBlock { s with phase := .block }).applyAll line (trim rawLine)
          [.blockOpened heading] = (s', some e) := h
      rw [records_of_applyAll_error closed, reads]
      rfl
  | marker | undeclared | result | proofLine | skipped | other => cases h

theorem Reached.feedAll {transcript : List Text} (h : s.Reached)
    (fed : s.feedAll line transcript = .ok s') : s'.Reached := by
  induction transcript generalizing s line with
  | nil =>
      cases fed
      exact h
  | cons rawLine rest ih =>
      have next := h.fed rawLine line
      rcases one : s.feed rawLine line with ⟨s₁, _ | e⟩
      · simp only [Scanner.feedAll, one] at fed
        rw [one] at next
        exact ih next fed
      · simp only [Scanner.feedAll, one] at fed
        cases fed

end Scanner

/-- Go on recording with a whole transcript. -/
def Records.addTranscript (r : Records) (text : Text) : Except LineError Records := do
  let s ← Scanner.feedAll { Scanner.initial with records := r } 1 (lines text)
  return s.finish.records

theorem Records.addTranscript_empty (text : Text) : empty.addTranscript text = ofTranscript text :=
  rfl

/-- Only a line can fail, not the end. -/
theorem Records.addTranscript_error_iff {r : Records} {text : Text} {e : LineError} :
    r.addTranscript text = .error e ↔
      Scanner.feedAll { Scanner.initial with records := r } 1 (lines text) = .error e := by
  unfold addTranscript
  rw [bind_error_iff, or_iff_left]
  rintro ⟨s, -, finished⟩
  cases finished

/-- A line that fails is named in the error. It ends the open block when it is a heading, and leaves
    all records as they are when it is not; so whatever was declared, stated or referred to stays.
    A transcript fails exactly when one of its lines does after those before it, and with the error
    of that line. -/
theorem Scanner.records_kept_on_error :
    (∀ (s s' : Scanner) (rawLine : Text) (line : Nat) (e : LineError), s.Reached →
      s.feed rawLine line = (s', some e) →
      (e.diagnostic : Diagnostic Details).code = .parse ∧
      (∃ what, (e.diagnostic : Diagnostic Details).message =
        lit "Line " ++ decimal line ++ lit ": " ++ what) ∧
      s.records.Frame s'.records ∧
      s'.records.lemmas.mapValues (·.stated) = s.records.lemmas.mapValues (·.stated) ∧
      s'.records = if Event.isHeading rawLine then s.closeBlock.records else s.records) ∧
    ∀ (r : Records) (text : Text) (e : LineError), r.addTranscript text = .error e ↔
      ∃ earlier rawLine later s s', lines text = earlier ++ rawLine :: later ∧ s.Reached ∧
        Scanner.feedAll { Scanner.initial with records := r } 1 earlier = .ok s ∧
        s.feed rawLine (earlier.length + 1) = (s', some e) := by
  refine ⟨fun s s' rawLine line e reached failed => ?_, fun r text e => ?_⟩
  · have records := records_of_feed_error reached.holdsBlock failed
    refine ⟨rfl, ⟨e.error.message, ?_⟩, ?_, ?_, records⟩
    · rw [← (anchored_of_applyAll_error failed).1]
      rfl
    · rw [records]
      split
      · exact s.frame_closeBlock
      · exact .refl s.records
    · rw [records]
      split
      · exact s.stated_closeBlock
      · rfl
  · rw [Records.addTranscript_error_iff, feedAll_error_iff]
    constructor
    · rintro ⟨earlier, rawLine, later, s, s', split, succeed, fails⟩
      rw [Nat.add_comm] at fails
      exact ⟨earlier, rawLine, later, s, s', split, (Reached.start r).feedAll succeed, succeed, fails⟩
    · rintro ⟨earlier, rawLine, later, s, s', split, -, succeed, fails⟩
      rw [Nat.add_comm] at fails
      exact ⟨earlier, rawLine, later, s, s', split, succeed, fails⟩

/-- The lines before a heading, which closes the block that they open. -/
def Scanner.linesBeforeHeading : List Text :=
  [ Event.proofMarker,
    lit "Lemma 1: X = X",
    lit "= \x7b by axiom 1 (a1) \x7d" ]

theorem Scanner.linesBeforeHeading_evaluated :
    (match after linesBeforeHeading with
      | .error _ => none
      | .ok s =>
        let (s', e) := s.feed (lit "Lemma 2: X =") 4
        some (s.records.proofs.keys, s'.records.proofs.keys, s'.records.lemmas.keys, e.isSome)) =
      some ([], [lit "Lemma_1"], [lit "Lemma_1"], true) := by
  decide +kernel

/-- The proof of the first lemma goes on record though the second is malformed, and the second does
    not. -/
theorem Scanner.records_kept_on_error_heading : ∃ (s s' : Scanner) (e : LineError), s.Reached ∧
    s.feed (lit "Lemma 2: X =") 4 = (s', some e) ∧ s.records.proofs.keys = [] ∧
    s'.records.proofs.keys = [lit "Lemma_1"] ∧ s'.records.lemmas.keys = [lit "Lemma_1"] ∧
    s.records.Frame s'.records ∧ s'.records = s.closeBlock.records := by
  have evaluated := linesBeforeHeading_evaluated
  rcases scanned : after linesBeforeHeading with e | s
  · rw [scanned] at evaluated
    cases evaluated
  · rw [scanned] at evaluated
    rcases fed : s.feed (lit "Lemma 2: X =") 4 with ⟨s', _ | e⟩
    · simp [fed] at evaluated
    · simp only [fed, Option.some.injEq, Prod.mk.injEq] at evaluated
      obtain ⟨before, proofs, lemmas, -⟩ := evaluated
      have reached : s.Reached := (Reached.start .empty).feedAll scanned
      obtain ⟨-, -, frame, -, records⟩ := records_kept_on_error.1 s s' _ 4 e reached fed
      exact ⟨s, s', e, reached, fed, before, proofs, lemmas, frame, records⟩

/-! ## After the last line -/

namespace Text

/-- A carriage return before the line feed that is put in between belongs to the margin. -/
theorem map_trim_lines_append (a b : Text) :
    (lines (a ++ newline :: b)).map trim = (lines a ++ lines b).map trim := by
  rw [List.map_append, ← map_trim_of_mayReturn (mayReturn_lines _),
    ← map_trim_of_mayReturn (mayReturn_lines a), ← map_trim_of_mayReturn (mayReturn_lines b),
    splitAt_append, List.map_append]

end Text

/-- A result line neither begins a declaration nor ends one. -/
theorem Collector.feed_resultMark (pending : Collector) (line : Nat) :
    ∃ next, pending.feed Event.resultMark line = (next, none) := by
  have inside : occurs Declaration.opening Event.resultMark = false := by decide
  cases pending with
  | none => exact ⟨none, by simp [feed, gather, inside]⟩
  | some p =>
      have last : p.text ++ lit " " ++ Event.resultMark = p.text ++ lit " RESUL" ++ lit "T" := by
        simp only [List.append_assoc]
        rfl
      refine ⟨_, feed_further inside ?_ line⟩
      rw [last]
      exact endsWith_ending_concat (by decide) _

theorem Phase.step_resultMark {phase : Phase} (outside : phase ≠ .block) :
    phase.step Event.resultMark = (phase, [.other Event.resultMark]) := by
  cases phase with
  | header | proofs => rfl
  | block => exact absurd rfl outside

/-- A result line does what the end of the transcript does, unless to what is held of a declaration.
    The end has then nothing left to do, and closes no block that the line could not. -/
theorem Scanner.feed_resultMark (s : Scanner) (line : Nat) :
    ∃ s', s.feed Event.resultMark line = (s', none) ∧
      { s'.finish with collector := s.collector } = s.finish ∧
      (s.HoldsBlock → { s' with collector := s.collector } = s.finish) := by
  obtain ⟨phase, current, collector, records⟩ := s
  obtain ⟨next, fed⟩ := collector.feed_resultMark line
  by_cases inside : phase = .block
  · subst inside
    exact ⟨_, rfl, rfl, fun _ => rfl⟩
  · refine ⟨⟨phase, current, next, records⟩, ?_, rfl, fun holds => ?_⟩
    · simp only [feed, Phase.step_resultMark inside, applyAll, apply, fed]
    · have idle : current = none := by simpa [HoldsBlock, inside] using holds
      subst idle
      cases phase with
      | header | proofs => rfl
      | block => exact absurd rfl inside

theorem Records.addTranscript_terminated (r : Records) (text : Text) :
    r.addTranscript (text ++ newline :: Event.resultMark) = r.addTranscript text := by
  have single : lines Event.resultMark = [Event.resultMark] := rfl
  have same := map_trim_lines_append text Event.resultMark
  rw [single] at same
  unfold addTranscript
  rw [Scanner.feedAll_congr_trim same]
  cases scanned : Scanner.feedAll { Scanner.initial with records := r } 1 (lines text) with
  | error e => rw [Scanner.feedAll_append_error scanned]
  | ok s =>
      obtain ⟨s', fed, ended, -⟩ := s.feed_resultMark (1 + (lines text).length)
      have records : s'.finish.records = s.finish.records := congrArg (·.records) ended
      rw [Scanner.feedAll_append scanned, Scanner.feedAll_cons fed]
      exact congrArg Except.ok records

/-- A transcript need not end with a result line: with one after it, it leaves the same records, or
    fails with the same error. In every state of a scanner, a result line and the end after it do
    what the end does alone; and in every state that is reached, so does the result line alone. What
    is held of a declaration is never finished by it. -/
theorem Records.ofTranscript_terminated (text : Text) :
    ofTranscript (text ++ newline :: Event.resultMark) = ofTranscript text ∧
    ∀ (s : Scanner) (line : Nat), ∃ s', s.feed Event.resultMark line = (s', none) ∧
      { s'.finish with collector := s.collector } = s.finish ∧
      (s.Reached → { s' with collector := s.collector } = s.finish) := by
  refine ⟨?_, fun s line => ?_⟩
  · rw [← addTranscript_empty, addTranscript_terminated, addTranscript_empty]
  · obtain ⟨s', fed, ended, alone⟩ := s.feed_resultMark line
    exact ⟨s', fed, ended, fun reached => alone reached.holdsBlock⟩

end MagmaTrace
