import MagmaTrace.Proofs.Scan

/-! # Open blocks

A line may end the open block, and says at most one thing besides. A block is open exactly
between its heading and the line that ends it, and in that time no formula is declared: so a
block that was opened for the hypothesis is closed for the hypothesis.
-/

namespace MagmaTrace

open Text

namespace Phase

open Event

/-- Whether a line ends the open block. -/
def closes (phase : Phase) (rawLine : Text) : Bool := (phase.step rawLine).2.contains .blockClosed

/-- A line may end the open block, and says at most one thing besides. -/
theorem step_split (phase : Phase) (rawLine : Text) :
    ∃ said : Option Event, said ≠ some .blockClosed ∧ (phase.step rawLine).2 =
      (if phase.closes rawLine then [Event.blockClosed] else []) ++ said.toList := by
  have moves := phase.moves_step rawLine
  unfold closes
  generalize (phase.step rawLine).1 = next, (phase.step rawLine).2 = events at moves ⊢
  cases moves with
  | axiomStated | lemmaStated | heading | nextHeading | proofLine | other =>
      exact ⟨some _, by nofun, rfl⟩
  | marker | undeclared | skipped | result => exact ⟨none, by nofun, rfl⟩

theorem eq_of_mem_step {phase : Phase} {rawLine : Text} {a b : Event}
    (ha : a ∈ (phase.step rawLine).2) (hb : b ∈ (phase.step rawLine).2) (notA : a ≠ .blockClosed)
    (notB : b ≠ .blockClosed) : a = b := by
  obtain ⟨said, -, events⟩ := phase.step_split rawLine
  have besides {event : Event} (mem : event ∈ (phase.step rawLine).2)
      (notClosing : event ≠ .blockClosed) : said = some event := by
    rw [events] at mem
    rcases List.mem_append.mp mem with closing | other
    · split at closing
      · exact absurd (List.mem_singleton.mp closing) notClosing
      · cases closing
    · exact Option.mem_toList.mp other
  exact Option.some.inj ((besides ha notA).symm.trans (besides hb notB))

end Phase

namespace Scanner

/-- The scanner when a line has ended the open block, if it does, and has said nothing else. -/
def entering (s : Scanner) (rawLine : Text) : Scanner :=
  let entered := { s with phase := (s.phase.step rawLine).1 }
  if s.phase.closes rawLine then entered.closeBlock else entered

theorem frame_entering (s : Scanner) (rawLine : Text) :
    s.records.Frame (s.entering rawLine).records := by
  unfold entering
  dsimp only
  split
  · exact frame_closeBlock { s with phase := (s.phase.step rawLine).1 }
  · exact .refl s.records

/-- What a line does after ending the open block comes from at most one thing that it says. -/
theorem feed_split {s s' : Scanner} {line : Nat} {rawLine : Text}
    (h : s.feed rawLine line = (s', none)) :
    ((∀ event ∈ (s.phase.step rawLine).2, event = .blockClosed) ∧ s' = s.entering rawLine) ∨
      ∃ event ∈ (s.phase.step rawLine).2, event ≠ .blockClosed ∧
        Takes line (s.entering rawLine) event s' := by
  obtain ⟨said, notClosing, events⟩ := s.phase.step_split rawLine
  let entered : Scanner := { s with phase := (s.phase.step rawLine).1 }
  have fed : entered.applyAll line (trim rawLine) (s.phase.step rawLine).2 = (s', none) := h
  have rest : (s.entering rawLine).applyAll line (trim rawLine) said.toList = (s', none) := by
    rw [events] at fed
    unfold entering
    cases closing : s.phase.closes rawLine with
    | true =>
        rw [closing] at fed
        exact fed
    | false =>
        rw [closing] at fed
        exact fed
  cases said with
  | none =>
      cases rest
      refine .inl ⟨fun event mem => ?_, rfl⟩
      rw [events, Option.toList_none, List.append_nil] at mem
      split at mem
      · exact List.mem_singleton.mp mem
      · cases mem
  | some event =>
      refine .inr ⟨event, ?_, fun same => notClosing (congrArg some same), takes_of_applyAll rest⟩
      rw [events]
      exact List.mem_append_right _ (List.mem_singleton_self event)

/-! ## The open block -/

/-- A block is open only in the phase of blocks, and it proves a lemma on record or the
    hypothesis. -/
def Engaged (s : Scanner) : Prop :=
  ∀ block ∈ s.current, s.phase = .block ∧
    (block.name ∈ s.records.lemmas.keys ∨ s.records.isHypothesisName block.name = true)

theorem Engaged.initial : initial.Engaged := by
  intro block opened
  cases opened

/-- A heading opens a block for the hypothesis, or for a lemma that is then on record. -/
theorem engaged_of_heading {s s' : Scanner} {line : Nat} {heading : Heading}
    (inside : s.phase = .block) (taken : Takes line s (.blockOpened heading) s') : s'.Engaged := by
  cases taken with
  | knownBlockOpened known =>
      intro block opened
      cases opened
      exact ⟨inside, known.symm.imp_left Registry.contains_iff.mp⟩
  | newBlockOpened =>
      intro block opened
      cases opened
      refine ⟨inside, .inl ?_⟩
      exact Registry.mem_keys_iff.mpr ⟨_, Registry.get?_insert_self ..⟩

theorem Engaged.feed {s s' : Scanner} (h : s.Engaged) {line : Nat} {rawLine : Text}
    (fed : s.feed rawLine line = (s', none)) : s'.Engaged := by
  have moves := s.phase.moves_step rawLine
  unfold Scanner.feed at fed
  generalize s.phase.step rawLine = stepped at moves fed
  obtain ⟨next, events⟩ := stepped
  dsimp only at moves fed
  generalize entered : s.phase = phase at moves
  cases moves with
  | axiomStated =>
      cases takes_of_applyAll fed with
      | axiomStated => exact entered ▸ h
  | marker =>
      cases fed
      intro block opened
      obtain ⟨inside, name⟩ := h block opened
      rw [entered] at inside
      exact ⟨by simp [inside], name⟩
  | lemmaStated =>
      cases takes_of_applyAll fed with
      | lemmaStated =>
          intro block opened
          obtain ⟨inside, name⟩ := h block opened
          refine ⟨entered ▸ inside, name.imp_left fun known => ?_⟩
          change _ ∈ (s.records.lemmas.insert _ _).keys
          rw [Registry.keys_insert]
          split
          · exact known
          · exact List.mem_append_left _ known
  | undeclared =>
      cases fed
      exact entered ▸ h
  | heading => exact engaged_of_heading rfl (takes_of_applyAll fed)
  | nextHeading =>
      -- The block before it is closed first.
      have closed : (closeBlock { s with phase := .block }).applyAll line (trim rawLine)
          [.blockOpened _] = (s', none) := fed
      exact engaged_of_heading rfl (takes_of_applyAll closed)
  | result =>
      cases fed
      intro block opened
      cases opened
  | proofLine =>
      cases takes_of_applyAll fed with
      | proofLine =>
          intro block extended
          obtain ⟨old, opened, rfl⟩ := Option.map_eq_some_iff.mp extended
          exact ⟨rfl, (h old opened).2⟩
  | skipped =>
      cases fed
      exact entered ▸ h
  | other outside =>
      -- No block is open here, so it does not matter which formula is declared.
      have idle : ∀ block, block ∉ s.current := fun block opened =>
        outside (entered ▸ (h block opened).1)
      cases takes_of_applyAll fed with
      | otherUnfinished => exact fun block opened => absurd opened (idle block)
      | otherDeclared => exact fun block opened => absurd opened (idle block)

theorem engaged_of_after {transcript : List Text} {s : Scanner} (h : after transcript = .ok s) :
    s.Engaged :=
  after_induction (P := fun _ s => s.Engaged) .initial
    (fun _ _ _ _ _ engaged fed => engaged.feed fed) h

end Scanner

end MagmaTrace
