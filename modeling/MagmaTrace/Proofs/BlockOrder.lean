import Mathlib.Computability.Language
import MagmaTrace.Proofs.Lines

/-! # The order of blocks

A transcript is a sequence of blocks: each is opened, filled with lines and closed, and only the
last may still be open, which is so exactly in the phase of blocks. One line moves a word of this
language to another (`writes_of_moves`), so a whole transcript spells one. The scanner holds a
block in the same phase, whatever went wrong on the lines before.
-/

namespace MagmaTrace

open Text Computability

/-- What an event does to blocks. -/
inductive BlockMark where
  | opened
  | line
  | closed
  deriving DecidableEq

namespace BlockMark

/-- A block that is not closed: its opening and its lines. -/
def unclosed : Language BlockMark := {[opened]} * {[line]}∗

/-- Blocks that are all closed. -/
def closedBlocks : Language BlockMark := (unclosed * {[closed]})∗

theorem nil_mem_closedBlocks : [] ∈ closedBlocks := Language.nil_mem_kstar _

theorem append_opened {word : List BlockMark} (h : word ∈ closedBlocks) :
    word ++ [opened] ∈ closedBlocks * unclosed := by
  apply Language.append_mem_mul h
  have lone : [opened] ++ [] ∈ unclosed :=
    Language.append_mem_mul (Set.mem_singleton _) (Language.nil_mem_kstar _)
  rwa [List.append_nil] at lone

theorem append_line {word : List BlockMark} (h : word ∈ closedBlocks * unclosed) :
    word ++ [line] ∈ closedBlocks * unclosed := by
  obtain ⟨before, done, block, begun, rfl⟩ := Language.mem_mul.mp h
  obtain ⟨head, opening, lines, filled, rfl⟩ := Language.mem_mul.mp begun
  have longer : lines ++ [line] ∈ ({[line]} : Language BlockMark)∗ := by
    rw [← Language.one_add_kstar_mul_self_eq_kstar]
    exact .inr (Language.append_mem_mul filled (Set.mem_singleton _))
  rw [List.append_assoc, List.append_assoc]
  exact Language.append_mem_mul done (Language.append_mem_mul opening longer)

theorem append_closed {word : List BlockMark} (h : word ∈ closedBlocks * unclosed) :
    word ++ [closed] ∈ closedBlocks := by
  obtain ⟨before, done, block, begun, rfl⟩ := Language.mem_mul.mp h
  rw [closedBlocks, ← Language.one_add_kstar_mul_self_eq_kstar, List.append_assoc]
  exact .inr (Language.append_mem_mul done (Language.append_mem_mul begun (Set.mem_singleton _)))

/-! ## Counting -/

theorem count_of_unclosed {word : List BlockMark} (h : word ∈ unclosed) :
    word.count opened = 1 ∧ word.count closed = 0 := by
  obtain ⟨head, rfl, tail, ⟨lines, rfl, all⟩, rfl⟩ := Language.mem_mul.mp h
  have noMark : ∀ mark ∈ lines.flatten, mark = line := by
    intro mark mem
    obtain ⟨piece, among, within⟩ := List.mem_flatten.mp mem
    rw [all piece among] at within
    exact List.mem_singleton.mp within
  have noOpened : lines.flatten.count opened = 0 :=
    List.count_eq_zero.mpr fun mem => nomatch noMark _ mem
  have noClosed : lines.flatten.count closed = 0 :=
    List.count_eq_zero.mpr fun mem => nomatch noMark _ mem
  simp [noOpened, noClosed]

theorem count_of_closedBlocks {word : List BlockMark} (h : word ∈ closedBlocks) :
    word.count opened = word.count closed := by
  obtain ⟨blocks, rfl, all⟩ := h
  induction blocks with
  | nil => rfl
  | cons block blocks ih =>
      obtain ⟨first, rest⟩ := List.forall_mem_cons.mp all
      obtain ⟨body, begun, _, rfl, rfl⟩ := Language.mem_mul.mp first
      obtain ⟨one, none⟩ := count_of_unclosed begun
      have later := ih rest
      simp only [List.flatten_cons, List.count_append, one, none, later]
      simp [Nat.add_comm]

/-- No word is both of blocks that are closed and of blocks of which the last is not. -/
theorem not_closedBlocks {word : List BlockMark} (h : word ∈ closedBlocks * unclosed) :
    word ∉ closedBlocks := by
  intro done
  have balanced := count_of_closedBlocks done
  obtain ⟨before, earlier, block, begun, rfl⟩ := Language.mem_mul.mp h
  obtain ⟨one, none⟩ := count_of_unclosed begun
  have evenBefore := count_of_closedBlocks earlier
  simp only [List.count_append, one, none] at balanced
  omega

end BlockMark

/-! ## What lines say, one after another -/

/-- What an event does to blocks, if anything. -/
def Event.mark? : Event → Option BlockMark
  | blockOpened _ => some .opened
  | proofLine _ _ => some .line
  | blockClosed => some .closed
  | _ => none

/-- What some events do to blocks. -/
def blockMarks (events : List Event) : List BlockMark := events.filterMap Event.mark?

namespace Phase

open BlockMark Event

/-- The phase after some lines, and everything that they say. -/
def run (phase : Phase) : List Text → Phase × List Event
  | [] => (phase, [])
  | rawLine :: rest =>
    let (next, events) := phase.step rawLine
    let (last, more) := next.run rest
    (last, events ++ more)

theorem run_append_singleton (phase : Phase) (transcript : List Text) (rawLine : Text) :
    phase.run (transcript ++ [rawLine]) =
      (((phase.run transcript).1.step rawLine).1,
        (phase.run transcript).2 ++ ((phase.run transcript).1.step rawLine).2) := by
  induction transcript generalizing phase with
  | nil => simp [run]
  | cons first rest ih => simp [run, ih, List.append_assoc]

/-- The phase tells whether the last of the blocks spelled so far is open. -/
def Writes (phase : Phase) (word : List BlockMark) : Prop :=
  if phase = .block then word ∈ closedBlocks * unclosed else word ∈ closedBlocks

theorem writes_of_moves {line : Text} {phase next : Phase} {events : List Event}
    (moves : Moves line phase next events) {word : List BlockMark} (h : phase.Writes word) :
    next.Writes (word ++ blockMarks events) := by
  cases moves with
  | axiomStated | lemmaStated | undeclared | skipped | other =>
      simpa [blockMarks, List.filterMap_cons, mark?] using h
  | marker =>
      cases phase with
      | header | proofs | block => simpa [blockMarks, Writes] using h
  | heading => exact append_opened h
  | nextHeading =>
      have reopened := append_opened (append_closed h)
      rwa [List.append_assoc] at reopened
  | result => exact append_closed h
  | proofLine => exact append_line h

theorem writes_run (transcript : List Text) :
    (header.run transcript).1.Writes (blockMarks (header.run transcript).2) := by
  induction transcript using List.reverseRecOn with
  | nil => exact nil_mem_closedBlocks
  | append_singleton transcript rawLine ih =>
      rw [run_append_singleton, blockMarks, List.filterMap_append]
      exact writes_of_moves (moves_step _ rawLine) ih

/-- The phase of blocks is the one in which the last block is open. -/
theorem Writes.block_iff {phase : Phase} {word : List BlockMark} (h : phase.Writes word) :
    (phase = .block ↔ word ∈ closedBlocks * unclosed) ∧
      (phase ≠ .block ↔ word ∈ closedBlocks) := by
  unfold Writes at h
  split at h
  · next inside => simp [inside, h, not_closedBlocks h]
  · next outside =>
      have notOpen : word ∉ closedBlocks * unclosed := fun isOpen => not_closedBlocks isOpen h
      simp [outside, h, notOpen]

/-! ## Where other lines and headings stand -/

/-- All blocks are closed before each event that is none of a block or a declaration. -/
def OutsideBlocks (events : List Event) : Prop :=
  ∀ before text after, events = before ++ .other text :: after → blockMarks before ∈ closedBlocks

theorem OutsideBlocks.append {events more : List Event} (h : OutsideBlocks events)
    (new : ∀ before text after, more = before ++ .other text :: after →
      blockMarks (events ++ before) ∈ closedBlocks) : OutsideBlocks (events ++ more) := by
  intro before text after split
  rcases List.append_eq_append_iff.mp split with ⟨passed, rfl, rest⟩ | ⟨passed, whole, rest⟩
  · exact new passed text after rest
  · cases passed with
    | nil =>
        rw [List.append_nil] at whole
        have here := new [] text after rest.symm
        rwa [List.append_nil, whole] at here
    | cons event passed =>
        obtain ⟨rfl, -⟩ := List.cons.inj rest
        exact h before text passed whole

theorem other_of_moves {line text : Text} {phase next : Phase} {events : List Event}
    (moves : Moves line phase next events) (said : .other text ∈ events) :
    events = [.other line] ∧ phase ≠ .block := by
  cases moves with
  | other outside => exact ⟨rfl, outside⟩
  | _ => simp at said

theorem outsideBlocks_run (transcript : List Text) : OutsideBlocks (header.run transcript).2 := by
  induction transcript using List.reverseRecOn with
  | nil => exact fun before text after split => by simp [run] at split
  | append_singleton transcript rawLine ih =>
      rw [run_append_singleton]
      apply ih.append
      intro before text after split
      -- A line that says such a thing says nothing else, and no block is open before it.
      obtain ⟨alone, outside⟩ := other_of_moves (moves_step _ rawLine)
        (split ▸ List.mem_append_right before List.mem_cons_self)
      have first : before = [] := by
        have single := congrArg List.length (split.symm.trans alone)
        simp only [List.length_append, List.length_cons, List.length_nil] at single
        exact List.length_eq_zero_iff.mp (by omega)
      rw [first, List.append_nil]
      exact (writes_run transcript).block_iff.2.mp outside

theorem opened_of_moves {line : Text} {phase next : Phase} {events : List Event} {heading : Heading}
    (moves : Moves line phase next events) (said : .blockOpened heading ∈ events) :
    phase ≠ .header := by
  cases moves with
  | heading | nextHeading => exact nofun
  | _ => simp at said

theorem step_ne_header {phase : Phase} (h : phase ≠ .header) (rawLine : Text) :
    (phase.step rawLine).1 ≠ .header := by
  have moves := phase.moves_step rawLine
  generalize (phase.step rawLine).1 = next, (phase.step rawLine).2 = events at moves
  cases moves with
  | axiomStated | lemmaStated | undeclared | other => exact h
  | marker => rwa [if_neg h]
  | heading | nextHeading | result | proofLine | skipped => exact nofun

/-- The header ends only at the marker line. -/
theorem step_header {rawLine : Text} (h : startsWith proofMarker (trim rawLine) = false) :
    (header.step rawLine).1 = .header := by
  rcases reads : axiomLine? (trim rawLine) with _ | event
  · by_cases marked : lemmaMarks.any (startsWith · (trim rawLine)) = true
    · simp [step, reads, h, marked]
    · simp [step, reads, h, marked, stepInside]
  · simp [step, reads]

theorem exists_marker {transcript : List Text} (h : (header.run transcript).1 ≠ .header) :
    ∃ rawLine ∈ transcript, startsWith proofMarker (trim rawLine) = true := by
  induction transcript using List.reverseRecOn with
  | nil => exact absurd rfl h
  | append_singleton transcript rawLine ih =>
      rw [run_append_singleton] at h
      by_cases inHeader : (header.run transcript).1 = .header
      · rw [inHeader] at h
        refine ⟨rawLine, List.mem_append_right _ (List.mem_singleton_self _), ?_⟩
        by_contra other
        exact h (step_header (Bool.not_eq_true _ ▸ other))
      · obtain ⟨marker, mem, isMarker⟩ := ih inHeader
        exact ⟨marker, List.mem_append_left _ mem, isMarker⟩

theorem run_append_ne_header {earlier : List Text} (h : (header.run earlier).1 ≠ .header)
    (later : List Text) : (header.run (earlier ++ later)).1 ≠ .header := by
  induction later using List.reverseRecOn with
  | nil => rwa [List.append_nil]
  | append_singleton later rawLine ih =>
      rw [← List.append_assoc, run_append_singleton]
      exact step_ne_header ih rawLine

end Phase

/-! ## The scanner's block -/

namespace Scanner

open Event

/-- What a scanner can come to by taking up lines, of whatever numbers and with or without an
    error, and by ending the transcript. -/
inductive Reached : Scanner → Prop where
  | start (records : Records) : Reached { initial with records := records }
  | fed {s : Scanner} (rawLine : Text) (line : Nat) (before : Reached s) :
      Reached (s.feed rawLine line).1
  | finished {s : Scanner} (before : Reached s) : Reached s.finish

/-- A block is held exactly in the phase of blocks. -/
def HoldsBlock (s : Scanner) : Prop := s.current.isSome = true ↔ s.phase = .block

theorem phase_apply (s : Scanner) (line : Nat) (source : Text) (event : Event) :
    (s.apply line source event).1.phase = s.phase := by
  cases event with
  | axiomStated | lemmaStated =>
      simp only [apply]
      split <;> rfl
  | blockOpened heading =>
      simp only [apply, openBlock]
      split
      · rfl
      · split <;> rfl
  | proofLine | blockClosed | other => rfl

theorem current_apply (s : Scanner) (line : Nat) (source : Text) (event : Event) :
    (s.apply line source event).1.current.isSome =
      match event with
      | .blockOpened _ => true
      | .blockClosed => false
      | _ => s.current.isSome := by
  cases event with
  | axiomStated | lemmaStated =>
      simp only [apply]
      split <;> rfl
  | blockOpened heading =>
      -- The block is there before its statement is read.
      simp only [apply, openBlock]
      split
      · rfl
      · split <;> rfl
  | proofLine text references => simp [apply]
  | blockClosed | other => rfl

theorem applyAll_singleton (s : Scanner) (line : Nat) (source : Text) (event : Event) :
    (s.applyAll line source [event]).1 = (s.apply line source event).1 := by
  simp only [applyAll]
  split
  · next failed => rw [failed]
  · next done => rw [done]

theorem HoldsBlock.feed {s : Scanner} (h : s.HoldsBlock) (rawLine : Text) (line : Nat) :
    (s.feed rawLine line).1.HoldsBlock := by
  have moves := s.phase.moves_step rawLine
  unfold HoldsBlock Scanner.feed at *
  generalize s.phase.step rawLine = stepped at moves
  obtain ⟨next, events⟩ := stepped
  dsimp only at moves ⊢
  generalize s.phase = phase at h moves
  cases moves with
  | marker =>
      cases phase with
      | header | proofs | block => simpa [applyAll] using h
  | undeclared | skipped => simpa [applyAll] using h
  | @nextHeading heading =>
      have closed : applyAll { s with phase := .block } line (trim rawLine)
          [.blockClosed, .blockOpened heading] = (closeBlock { s with phase := .block }).applyAll
            line (trim rawLine) [.blockOpened heading] := rfl
      rw [closed, applyAll_singleton, phase_apply, current_apply]
      simp [closeBlock]
  | axiomStated | lemmaStated | heading | result | proofLine | other =>
      rw [applyAll_singleton, phase_apply, current_apply]
      simp [h]

theorem Reached.holdsBlock {s : Scanner} (h : s.Reached) : s.HoldsBlock := by
  induction h with
  | start records => simp [HoldsBlock, initial]
  | fed rawLine line before ih => exact ih.feed rawLine line
  | finished before ih =>
      unfold HoldsBlock finish closeBlock
      dsimp only
      split <;> simp_all

end Scanner

open BlockMark Phase

/-- Every transcript spells closed blocks and at most one that is not closed, which there is exactly
    in the phase of blocks. Lines that say nothing of blocks and declarations stand outside blocks,
    no block is opened before the marker line, and the header is never entered again. Whatever the
    scanner has taken up, it holds a block exactly in the phase of blocks. -/
theorem blocks_in_order (transcript : List Text) :
    let phase := (header.run transcript).1
    let events := (header.run transcript).2
    blockMarks events ∈ closedBlocks * (1 + unclosed) ∧
    (phase = .block ↔ blockMarks events ∈ closedBlocks * unclosed) ∧
    (phase ≠ .block ↔ blockMarks events ∈ closedBlocks) ∧
    OutsideBlocks events ∧
    (∀ earlier rawLine later heading, transcript = earlier ++ rawLine :: later →
      .blockOpened heading ∈ ((header.run earlier).1.step rawLine).2 →
      ∃ marker ∈ earlier, startsWith Event.proofMarker (trim marker) = true) ∧
    (∀ earlier later, transcript = earlier ++ later → (header.run earlier).1 ≠ .header →
      phase ≠ .header) ∧
    ∀ s : Scanner, s.Reached → s.HoldsBlock := by
  intro phase events
  have writes : phase.Writes (blockMarks events) := writes_run transcript
  refine ⟨?_, writes.block_iff.1, writes.block_iff.2, outsideBlocks_run transcript, ?_, ?_,
    fun s reached => reached.holdsBlock⟩
  · rw [mul_add, mul_one]
    by_cases inside : phase = .block
    · exact .inr (writes.block_iff.1.mp inside)
    · exact .inl (writes.block_iff.2.mp inside)
  · intro earlier rawLine later heading _ opened
    exact exists_marker (opened_of_moves (moves_step _ rawLine) opened)
  · rintro earlier later rfl left
    exact run_append_ne_header left later

/-- A heading with a malformed statement is an error and leaves a block open. -/
theorem blocks_in_order_malformed :
    let heading : Text := lit "Lemma 1: ("
    let transcript := [Event.proofMarker, heading]
    let fed := ((Scanner.initial.feed Event.proofMarker 1).1).feed heading 2
    (∃ opened, .blockOpened opened ∈ ((header.run [Event.proofMarker]).1.step heading).2) ∧
      (∃ marker ∈ [Event.proofMarker], startsWith Event.proofMarker (trim marker) = true) ∧
      (header.run transcript).1 = .block ∧
      blockMarks (header.run transcript).2 ∈ closedBlocks * unclosed ∧
      fed.2.isSome = true ∧ fed.1.current.isSome = true := by
  intro heading transcript fed
  obtain ⟨-, isOpen, -, -, afterMarker, -, holds⟩ := blocks_in_order transcript
  have opens : ∃ opened, .blockOpened opened ∈
      ((header.run [Event.proofMarker]).1.step heading).2 := by
    refine ⟨⟨.auxiliary, .ofNat 1, none, lit "("⟩, ?_⟩
    decide +kernel
  obtain ⟨opened, mem⟩ := opens
  have inside : (header.run transcript).1 = .block := by decide +kernel
  have reached : fed.1.Reached := .fed heading 2 (.fed Event.proofMarker 1 (.start .empty))
  have failed : fed.2.isSome = true ∧ fed.1.phase = .block := by decide +kernel
  exact ⟨⟨opened, mem⟩, afterMarker [Event.proofMarker] heading [] opened rfl mem, inside,
    isOpen.mp inside, failed.1, (holds fed.1 reached).mpr failed.2⟩

end MagmaTrace
