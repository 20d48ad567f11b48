import Mathlib.Data.List.Pairwise
import MagmaTrace.Proofs.Anchors
import MagmaTrace.Proofs.BlockOrder
import MagmaTrace.Proofs.Margins
import MagmaTrace.Proofs.Searching

/-! # Proofs as slices of a transcript

The lines of proofs are taken from the transcript one after another, and each goes to the block
that is open. The blocks therefore lie side by side: all their lines together, in the order in
which the blocks ended, are the lines of proofs of the transcript. A block that is stored may be
replaced by a later one; what its lines cited stays on record
(`Records.proofs_tile_transcript`).
-/

namespace MagmaTrace

open Text

/-! ## The lines of proofs of a transcript -/

/-- The text that an event adds to a proof. -/
def Event.proofText? : Event → Option Text
  | proofLine text _ => some text
  | _ => none

namespace Phase

open Event

/-- The text that a line adds to a proof. -/
def proofText? (phase : Phase) (rawLine : Text) : Option Text :=
  (phase.step rawLine).2.findSome? Event.proofText?

/-- What some lines add to proofs, the first of the lines having the given number. -/
def proofLines (phase : Phase) (number : Nat) : List Text → List ProofLine
  | [] => []
  | rawLine :: rest =>
    ((phase.proofText? rawLine).toList.map fun text => ⟨text, number⟩) ++
      (phase.step rawLine).1.proofLines (number + 1) rest

theorem proofLines_append_singleton (phase : Phase) (number : Nat) (transcript : List Text)
    (rawLine : Text) : phase.proofLines number (transcript ++ [rawLine]) =
      phase.proofLines number transcript ++
        (((phase.run transcript).1.proofText? rawLine).toList.map
          fun text => ⟨text, number + transcript.length⟩) := by
  induction transcript generalizing phase number with
  | nil => simp [proofLines, run]
  | cons first rest ih =>
      simp only [List.cons_append, proofLines, ih, run, List.append_assoc, List.length_cons,
        Nat.add_assoc, Nat.add_comm 1]

theorem proofText?_nil (phase : Phase) : phase.proofText? [] = none := by
  cases phase <;> rfl

/-- What a line adds to a proof is its text, and not the empty one. -/
theorem proofText?_eq_some {phase : Phase} {rawLine text : Text}
    (h : phase.proofText? rawLine = some text) : text = trim rawLine ∧ text ≠ [] := by
  obtain ⟨event, said, adds⟩ := List.exists_of_findSome?_eq_some h
  have same : text = trim rawLine := by
    cases isSaidBy_of_step said with
    | proofLine => exact (Option.some.inj adds).symm
    | _ => cases adds
  refine ⟨same, fun blank => ?_⟩
  have alike : phase.step rawLine = phase.step [] :=
    phase.step_congr_trim (same.symm.trans blank)
  rw [proofText?, alike, ← proofText?, proofText?_nil] at h
  cases h

/-- The lines of proofs of a whole transcript. -/
def proofLinesOf (transcript : List Text) : List ProofLine := header.proofLines 1 transcript

theorem proofLinesOf_append_singleton (transcript : List Text) (rawLine : Text) :
    proofLinesOf (transcript ++ [rawLine]) = proofLinesOf transcript ++
      (((header.run transcript).1.proofText? rawLine).toList.map
        fun text => ⟨text, transcript.length + 1⟩) := by
  unfold proofLinesOf
  rw [proofLines_append_singleton, Nat.add_comm 1]

theorem isLineOf_of_mem_proofLinesOf {transcript : List Text} {line : ProofLine}
    (h : line ∈ proofLinesOf transcript) :
    IsLineOf transcript line.line line.text ∧ line.text ≠ [] := by
  induction transcript using List.reverseRecOn with
  | nil => cases h
  | append_singleton transcript rawLine ih =>
      rw [proofLinesOf_append_singleton] at h
      rcases List.mem_append.mp h with earlier | last
      · obtain ⟨isLine, nonempty⟩ := ih earlier
        exact ⟨isLine.append_line rawLine, nonempty⟩
      · obtain ⟨text, added, rfl⟩ := List.mem_map.mp last
        obtain ⟨rfl, nonempty⟩ := proofText?_eq_some (Option.mem_toList.mp added)
        exact ⟨.last transcript rawLine, nonempty⟩

/-- They stand in the order of their numbers, each number once. -/
theorem pairwise_proofLinesOf (transcript : List Text) :
    (proofLinesOf transcript).Pairwise fun a b => a.line < b.line := by
  induction transcript using List.reverseRecOn with
  | nil => exact .nil
  | append_singleton transcript rawLine ih =>
      rw [proofLinesOf_append_singleton]
      refine List.pairwise_append.mpr ⟨ih, ?_, fun a ha b hb => ?_⟩
      · cases (header.run transcript).1.proofText? rawLine with
        | none => exact .nil
        | some text => exact List.pairwise_singleton _ _
      · obtain ⟨text, -, rfl⟩ := List.mem_map.mp hb
        exact Nat.lt_succ_of_le (isLineOf_of_mem_proofLinesOf ha).1.bounds.2

end Phase

/-! ## What blocks hold of them -/

namespace Scanner

/-- Some lines of proofs are held by blocks that have ended and by the open block, and the last
    block that ended under a name is the proof that is stored. What the lines cite is on record. -/
structure Filled (given : List ProofLine) (ended : List ProofBlock) (s : Scanner) : Prop where
  tiled : ended.flatMap (·.lines) ++ s.current.toList.flatMap (·.lines) = given
  stored : s.records.proofs = .ofList (ended.map fun block => (block.name, block))
  nonempty : ∀ block ∈ ended, block.lines ≠ []
  used : s.records.used = firstMentions (given.flatMap fun line => Dependency.references line.text)

namespace Filled

variable {given : List ProofLine} {ended : List ProofBlock} {s : Scanner}

theorem initial : Scanner.initial.Filled [] [] := ⟨rfl, rfl, nofun, rfl⟩

/-- Only the open block, the proofs and the references matter. -/
theorem of_eq {s' : Scanner} (h : s.Filled given ended) (current : s'.current = s.current)
    (proofs : s'.records.proofs = s.records.proofs) (used : s'.records.used = s.records.used) :
    s'.Filled given ended :=
  ⟨current ▸ h.tiled, proofs ▸ h.stored, h.nonempty, used ▸ h.used⟩

theorem append_nil (h : s.Filled given ended) : s.Filled (given ++ []) ended := by
  rwa [List.append_nil]

/-- A line that gives nothing to a proof. -/
theorem silent {s' : Scanner} (h : s.Filled given ended) (current : s'.current = s.current)
    (proofs : s'.records.proofs = s.records.proofs) (used : s'.records.used = s.records.used) :
    s'.Filled (given ++ []) ended :=
  (h.of_eq current proofs used).append_nil

/-- A block that has lines is stored when it ends, in place of an earlier one of its name. -/
theorem closeBlock (h : s.Filled given ended) :
    ∃ ended, s.closeBlock.Filled given ended ∧ s.closeBlock.current = none := by
  rcases opened : s.current with _ | block
  · exact ⟨ended, h.of_eq opened.symm (by simp [Scanner.closeBlock, opened])
      s.frame_closeBlock.used, rfl⟩
  · have records : s.closeBlock.records = s.records.addProof block := by
      simp [Scanner.closeBlock, opened]
    have tiled := h.tiled
    simp only [opened, Option.toList_some, List.flatMap_cons, List.flatMap_nil,
      List.append_nil] at tiled
    by_cases empty : block.lines = []
    · rw [empty, List.append_nil] at tiled
      have unchanged : s.closeBlock.records = s.records := by
        rw [records, Records.addProof, if_pos empty]
      refine ⟨ended, ⟨?_, unchanged ▸ h.stored, h.nonempty, unchanged ▸ h.used⟩, rfl⟩
      exact (List.append_nil _).trans tiled
    · refine ⟨ended ++ [block], ⟨?_, ?_, ?_, s.frame_closeBlock.used.trans h.used⟩, rfl⟩
      · change (ended ++ [block]).flatMap (·.lines) ++ [] = given
        simpa using tiled
      · have inserted : (s.records.addProof block).proofs =
            s.records.proofs.insert block.name block := by
          rw [Records.addProof, if_neg empty]
          dsimp only
          split <;> rfl
        rw [records, inserted, h.stored, List.map_append, List.map_singleton,
          Registry.ofList_append_singleton]
      · intro old mem
        rcases List.mem_append.mp mem with earlier | last
        · exact h.nonempty old earlier
        · rwa [List.mem_singleton.mp last]

/-- A heading opens a block without lines when none is open. -/
theorem opened {s' : Scanner} {line : Nat} {heading : Heading} (h : s.Filled given ended)
    (idle : s.current = none) (taken : Takes line s (.blockOpened heading) s') :
    s'.Filled given ended := by
  have tiled := h.tiled
  rw [idle] at tiled
  cases taken with
  | knownBlockOpened => exact ⟨tiled, h.stored, h.nonempty, h.used⟩
  | newBlockOpened => exact ⟨tiled, h.stored, h.nonempty, h.used⟩

/-- A line of a proof goes to the open block. -/
theorem append_line {s' : Scanner} {text : Text} {line : Nat} (h : s.Filled given ended)
    (isOpen : s.current.isSome = true)
    (taken : Takes line s (.proofLine text (Dependency.references text)) s') :
    s'.Filled (given ++ [⟨text, line⟩]) ended := by
  cases taken with
  | proofLine =>
      obtain ⟨block, opened⟩ := Option.isSome_iff_exists.mp isOpen
      refine ⟨?_, h.stored, h.nonempty, ?_⟩
      · rw [← h.tiled]
        simp [opened]
      · change (Dependency.references text).foldl addNew s.records.used = _
        rw [h.used, List.flatMap_append, firstMentions_append, List.flatMap_cons,
          List.flatMap_nil, List.append_nil]

theorem feed {s' : Scanner} {rawLine : Text} {number : Nat} (h : s.Filled given ended)
    (holds : s.HoldsBlock) (fed : s.feed rawLine number = (s', none)) :
    ∃ ended, s'.Filled
      (given ++ (s.phase.proofText? rawLine).toList.map fun text => ⟨text, number⟩) ended := by
  have moves := s.phase.moves_step rawLine
  unfold Scanner.feed at fed
  unfold Phase.proofText?
  unfold HoldsBlock at holds
  generalize s.phase.step rawLine = stepped at moves fed ⊢
  obtain ⟨next, events⟩ := stepped
  dsimp only at moves fed ⊢
  generalize s.phase = phase at moves holds
  have entered : Filled given ended { s with phase := next } := h.of_eq rfl rfl rfl
  cases moves with
  | axiomStated =>
      cases takes_of_applyAll fed with
      | axiomStated => exact ⟨ended, entered.silent rfl rfl rfl⟩
  | lemmaStated =>
      cases takes_of_applyAll fed with
      | lemmaStated => exact ⟨ended, entered.silent rfl rfl rfl⟩
  | marker | undeclared | skipped =>
      cases fed
      exact ⟨ended, entered.append_nil⟩
  | heading =>
      have idle : s.current = none := by simpa using holds
      exact ⟨ended, (entered.opened idle (takes_of_applyAll fed)).append_nil⟩
  | nextHeading =>
      -- The block before it is closed first.
      obtain ⟨ended, closed, idle⟩ := entered.closeBlock
      have rest : (Scanner.closeBlock { s with phase := .block }).applyAll number (trim rawLine)
          [.blockOpened _] = (s', none) := fed
      exact ⟨ended, (closed.opened idle (takes_of_applyAll rest)).append_nil⟩
  | result =>
      cases fed
      obtain ⟨ended, closed, -⟩ := entered.closeBlock
      exact ⟨ended, closed.append_nil⟩
  | proofLine =>
      have isOpen : s.current.isSome = true := holds.mpr rfl
      exact ⟨ended, entered.append_line isOpen (takes_of_applyAll fed)⟩
  | other =>
      cases takes_of_applyAll fed with
      | otherUnfinished => exact ⟨ended, entered.silent rfl rfl rfl⟩
      | @otherDeclared _ _ declaration =>
          obtain ⟨hypothesis, conjecture, same⟩ := s.records.addDeclaration_eq declaration
          rw [same]
          exact ⟨ended, entered.silent rfl rfl rfl⟩

end Filled

theorem phase_applyAll (s : Scanner) (line : Nat) (source : Text) (events : List Event) :
    (s.applyAll line source events).1.phase = s.phase := by
  induction events generalizing s with
  | nil => rfl
  | cons event events ih =>
      have same := s.phase_apply line source event
      unfold applyAll
      split
      · next failed => rwa [failed] at same
      · next done =>
          rw [done] at same
          rw [ih, same]

theorem phase_feed (s : Scanner) (rawLine : Text) (line : Nat) :
    (s.feed rawLine line).1.phase = (s.phase.step rawLine).1 :=
  phase_applyAll ..

/-- The phase of a scanner depends on the lines alone. -/
theorem phase_of_after {transcript : List Text} {s : Scanner} (h : after transcript = .ok s) :
    s.phase = (Phase.header.run transcript).1 := by
  refine after_induction (P := fun transcript s => s.phase = (Phase.header.run transcript).1) rfl
    (fun transcript rawLine s s' _ same fed => ?_) h
  rw [Phase.run_append_singleton, ← same, ← s.phase_feed rawLine (transcript.length + 1), fed]

theorem holdsBlock_of_after {transcript : List Text} {s : Scanner} (h : after transcript = .ok s) :
    s.HoldsBlock := by
  refine after_induction (P := fun _ s => s.HoldsBlock) (Reached.start .empty).holdsBlock
    (fun transcript rawLine s s' _ holds fed => ?_) h
  have next := holds.feed rawLine (transcript.length + 1)
  rwa [fed] at next

/-- The scanner gives every line of a proof to a block, in the order of the transcript. -/
theorem filled_of_after {transcript : List Text} {s : Scanner} (h : after transcript = .ok s) :
    ∃ ended, s.Filled (Phase.proofLinesOf transcript) ended := by
  refine after_induction (P := fun transcript s =>
    ∃ ended, s.Filled (Phase.proofLinesOf transcript) ended) ⟨[], .initial⟩
    (fun transcript rawLine s s' scanned filled fed => ?_) h
  obtain ⟨ended, filled⟩ := filled
  rw [Phase.proofLinesOf_append_singleton, ← phase_of_after scanned]
  exact filled.feed (holdsBlock_of_after scanned) fed

end Scanner

/-! ## Slices -/

/-- A block of lines of a transcript, in their order and none of them blank. -/
structure ProofBlock.IsSlice (transcript : List Text) (block : ProofBlock) : Prop where
  nonempty : block.lines ≠ []
  lines : ∀ line ∈ block.lines, line.text ≠ [] ∧ IsLineOf transcript line.line line.text
  increasing : block.lines.Pairwise fun a b => a.line < b.line

/-- All lines of a block stand before all lines of another. -/
def ProofBlock.Before (block other : ProofBlock) : Prop :=
  ∀ a ∈ block.lines, ∀ b ∈ other.lines, a.line < b.line

/-- The lines of two blocks do not overlap. -/
def ProofBlock.Apart (block other : ProofBlock) : Prop := block.Before other ∨ other.Before block

instance : Std.Symm ProofBlock.Apart := ⟨fun _ _ => Or.symm⟩

namespace Records

/-- Every proof that is stored is a slice of the transcript, and the slices of different proofs do
    not overlap. Together with the blocks that were replaced they hold exactly the lines of proofs
    of the transcript; the references that are used are those which these lines make, in the order
    in which they are first made. -/
theorem proofs_tile_transcript {text : Text} {r : Records} (h : ofTranscript text = .ok r) :
    let given := Phase.proofLinesOf (lines text)
    let made := given.flatMap fun line => Dependency.references line.text
    (∃ ended : List ProofBlock, ended.flatMap (·.lines) = given ∧
      r.proofs = .ofList (ended.map fun block => (block.name, block))) ∧
    (∀ name block, r.proofs.get? name = some block →
      block.name = name ∧ block.IsSlice (lines text)) ∧
    (∀ name name' block block', r.proofs.get? name = some block →
      r.proofs.get? name' = some block' → name ≠ name' → block.Apart block') ∧
    (∀ reference, reference ∈ r.used ↔ reference ∈ made) ∧
    r.used.Pairwise fun a b => made.idxOf a < made.idxOf b := by
  intro given made
  obtain ⟨s, scanned, rfl⟩ := ofTranscript_ok_iff.mp h
  obtain ⟨_, filled⟩ := Scanner.filled_of_after scanned
  obtain ⟨ended, closed, idle⟩ := filled.closeBlock
  have tiled : ended.flatMap (·.lines) = given := by
    have whole := closed.tiled
    rwa [idle, Option.toList_none, List.flatMap_nil, List.append_nil] at whole
  have stored : s.finish.records.proofs = .ofList (ended.map fun block => (block.name, block)) :=
    closed.stored
  have used : s.finish.records.used = firstMentions made := closed.used
  have ordered : given.Pairwise fun a b => a.line < b.line := Phase.pairwise_proofLinesOf _
  rw [← tiled, List.pairwise_flatMap] at ordered
  obtain ⟨within, across⟩ := ordered
  have filed :
      s.finish.records.proofs.Holds fun name block => block.name = name ∧ block ∈ ended := by
    rw [stored]
    refine (Registry.holds_empty _).insertAll fun entry mem => ?_
    obtain ⟨block, among, rfl⟩ := List.mem_map.mp mem
    exact ⟨rfl, among⟩
  refine ⟨⟨ended, tiled, stored⟩, fun name block found => ?_, ?_, fun reference => ?_, ?_⟩
  · obtain ⟨named, among⟩ := filed name block found
    refine ⟨named, closed.nonempty block among, fun line mem => ?_, within block among⟩
    have isGiven : line ∈ given := tiled ▸ List.mem_flatMap.mpr ⟨block, among, mem⟩
    exact (Phase.isLineOf_of_mem_proofLinesOf isGiven).symm
  · intro name name' block block' found found' other
    obtain ⟨rfl, among⟩ := filed name block found
    obtain ⟨rfl, among'⟩ := filed name' block' found'
    have apart : ended.Pairwise ProofBlock.Apart := across.imp .inl
    exact apart.forall among among' fun same => other (same ▸ rfl)
  · rw [used, mem_firstMentions]
  · rw [used]
    exact pairwise_idxOf_firstMentions made

/-- A lemma that is proved twice, and another whose proof ends the first and goes on after an
    axiom. -/
def provedTwice : List Text :=
  [ Event.proofMarker,
    lit "Lemma 1 (single_lemma_1): X = Y",
    lit "  X",
    lit "= \x7b by axiom 1 (single_lemma_7) \x7d",
    lit "Lemma 2 (single_lemma_2): Y = X",
    lit "Axiom 1 (single_lemma_7): X = Y.",
    lit "= \x7b by lemma 1 (single_lemma_1) \x7d",
    lit "RESULT",
    lit "Lemma 1 (single_lemma_1): X = Y",
    lit "= \x7b by lemma 2 (single_lemma_2) and axiom 1 (single_lemma_7) \x7d" ]

theorem provedTwice_evaluated : (ofTranscript (joinLines provedTwice)).toOption.map (fun r =>
    ((r.proofs.get? (lit "single_lemma_1")).map fun block => block.lines.map (·.line),
      (r.proofs.get? (lit "single_lemma_2")).map fun block => block.lines.map (·.line), r.used)) =
      some (some [10], some [7],
        [lit "single_lemma_7", lit "single_lemma_1", lit "single_lemma_2"]) := by
  decide +kernel

/-- The second proof of the lemma stands after the other lemma's, which the first stands before;
    what the first cites is still on record. -/
theorem proofs_tile_transcript_provedTwice : ∃ r block other,
    ofTranscript (joinLines provedTwice) = .ok r ∧
    r.proofs.get? (lit "single_lemma_1") = some block ∧
    r.proofs.get? (lit "single_lemma_2") = some other ∧
    block.lines.map (·.line) = [10] ∧ other.lines.map (·.line) = [7] ∧
    block.IsSlice (lines (joinLines provedTwice)) ∧ block.Apart other ∧
    (Phase.proofLinesOf (lines (joinLines provedTwice))).map (·.line) = [3, 4, 7, 10] ∧
    r.used = [lit "single_lemma_7", lit "single_lemma_1", lit "single_lemma_2"] := by
  obtain ⟨r, scanned, evaluated⟩ := Option.map_eq_some_iff.mp provedTwice_evaluated
  obtain ⟨first, rest⟩ := Prod.mk.inj evaluated
  obtain ⟨second, used⟩ := Prod.mk.inj rest
  obtain ⟨block, found, numbers⟩ := Option.map_eq_some_iff.mp first
  obtain ⟨other, found', numbers'⟩ := Option.map_eq_some_iff.mp second
  have recorded := toOption_eq_some_iff.mp scanned
  obtain ⟨-, slices, apart, -, -⟩ := proofs_tile_transcript recorded
  refine ⟨r, block, other, recorded, found, found', numbers, numbers', (slices _ _ found).2,
    apart _ _ _ _ found found' (by decide), ?_, used⟩
  decide +kernel

end Records

end MagmaTrace
