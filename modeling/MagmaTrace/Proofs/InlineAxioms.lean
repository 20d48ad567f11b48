import MagmaTrace.Proofs.Scan

/-! # Inline axioms

The record of an inline axiom holds what the last line that states it says.
-/

namespace MagmaTrace

open Text

/-- A record holds what the last line of a transcript that states an axiom of a name says. -/
def AxiomRecord.IsLastStated (transcript : List Text) (name : Text) (record : AxiomRecord) : Prop :=
  ∃ earlier rawLine later statement, transcript = earlier ++ rawLine :: later ∧
    record.name = name ∧ record.line = earlier.length + 1 ∧
    Event.axiomLine? (trim rawLine) = some (.axiomStated name statement) ∧
    Expression.read statement = .ok record.expression ∧
    ∀ other ∈ later, ∀ statement, Event.axiomLine? (trim other) ≠ some (.axiomStated name statement)

/-- A line that does not state the axiom changes nothing. -/
theorem AxiomRecord.IsLastStated.append_line {transcript : List Text} {name : Text}
    {record : AxiomRecord} (h : record.IsLastStated transcript name) {rawLine : Text}
    (silent : ∀ statement, Event.axiomLine? (trim rawLine) ≠ some (.axiomStated name statement)) :
    record.IsLastStated (transcript ++ [rawLine]) name := by
  obtain ⟨earlier, stated, later, statement, rfl, named, placed, reads, means, last⟩ := h
  refine ⟨earlier, stated, later ++ [rawLine], statement, by simp, named, placed, reads, means, ?_⟩
  intro other mem
  rcases List.mem_append.mp mem with old | new
  · exact last other old
  · rw [List.mem_singleton.mp new]
    exact silent

namespace Scanner

theorem axioms_of_takes {s s' : Scanner} {line : Nat} {text : Text} {event : Event}
    (said : event.IsSaidBy text) (noAxiom : Event.axiomLine? text = none)
    (taken : Takes line s event s') : s'.records.axioms = s.records.axioms := by
  cases taken with
  | axiomStated =>
      cases said with
      | axiomStated reads =>
          rw [reads] at noAxiom
          cases noAxiom
  | lemmaStated => rfl
  | knownBlockOpened => rfl
  | newBlockOpened => rfl
  | proofLine => rfl
  | blockClosed => exact s.frame_closeBlock.axioms
  | otherUnfinished => rfl
  | @otherDeclared text collector declaration =>
      obtain ⟨hypothesis, conjecture, same⟩ := s.records.addDeclaration_eq declaration
      exact congrArg (·.axioms) same

theorem axioms_of_feed {s s' : Scanner} {line : Nat} {rawLine : Text}
    (noAxiom : Event.axiomLine? (trim rawLine) = none) (h : s.feed rawLine line = (s', none)) :
    s'.records.axioms = s.records.axioms :=
  feed_preserves (P := fun now => now.records.axioms = s.records.axioms)
    (fun _ _ same => same)
    (fun _ _ _ same said taken => (axioms_of_takes said noAxiom taken).trans same) h rfl

/-- A line that states an axiom says nothing else. -/
theorem takes_of_axiomLine? {s s' : Scanner} {line : Nat} {rawLine : Text} {event : Event}
    (reads : Event.axiomLine? (trim rawLine) = some event)
    (h : s.feed rawLine line = (s', none)) : Takes line s event s' := by
  have said : s.phase.step rawLine = (s.phase, [event]) := by
    simp only [Phase.step, reads]
  unfold feed at h
  rw [said] at h
  exact takes_of_applyAll h

theorem axioms_of_after {transcript : List Text} {s : Scanner} (h : after transcript = .ok s) :
    s.records.axioms.Holds (AxiomRecord.IsLastStated transcript) := by
  refine after_induction
    (P := fun transcript s => s.records.axioms.Holds (AxiomRecord.IsLastStated transcript))
    (Registry.holds_empty _) ?_ h
  intro transcript rawLine s s' _ old fed
  rcases reads : Event.axiomLine? (trim rawLine) with _ | event
  · rw [axioms_of_feed reads fed]
    intro name record found
    exact (old name record found).append_line (by simp [reads])
  · obtain ⟨stated, statement, rfl⟩ := Event.eq_axiomStated_of_axiomLine? reads
    cases takes_of_axiomLine? reads fed with
    | @axiomStated _ _ expression means =>
        intro name record found
        change (s.records.axioms.insert _ _).get? name = _ at found
        by_cases same : name = stated
        · subst same
          rw [Registry.get?_insert_self] at found
          cases found
          exact ⟨transcript, rawLine, [], statement, rfl, rfl, rfl, reads, means, by simp⟩
        · rw [Registry.get?_insert_of_ne _ _ same] at found
          refine (old name record found).append_line fun statement again => ?_
          rw [reads] at again
          cases again
          exact same rfl

end Scanner

theorem Records.axioms_of_ofTranscript {text : Text} {r : Records}
    (h : Records.ofTranscript text = .ok r) :
    r.axioms.Holds (AxiomRecord.IsLastStated (lines text)) := by
  obtain ⟨s, scanned, rfl⟩ := Records.ofTranscript_ok_iff.mp h
  change s.closeBlock.records.axioms.Holds _
  rw [s.frame_closeBlock.axioms]
  exact Scanner.axioms_of_after scanned

end MagmaTrace
