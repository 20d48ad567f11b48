import MagmaTrace.Proofs.Lines
import MagmaTrace.Proofs.Stages

/-! # Where errors are anchored

A malformed text is noticed on the line that states it, or long after, when a chain is built or a
law is written. Lines of proofs are kept with their numbers, and declarations with the number of
the line they start on, so that each error still knows the line to blame. It is put under that
line's number once (`Translation.parse_error_anchored`).
-/

namespace MagmaTrace

open Text

/-! ## Lines and declarations of a transcript -/

/-- A text is the line of a transcript with a number, without the white space around it. -/
def IsLineOf (transcript : List Text) (number : Nat) (text : Text) : Prop :=
  ∃ place rawLine, transcript[place]? = some rawLine ∧ number = place + 1 ∧ text = trim rawLine

namespace IsLineOf

variable {transcript : List Text} {number : Nat} {text : Text}

theorem append_line (h : IsLineOf transcript number text) (rawLine : Text) :
    IsLineOf (transcript ++ [rawLine]) number text := by
  obtain ⟨place, own, found, rfl, rfl⟩ := h
  have inside : place < transcript.length := (List.getElem?_eq_some_iff.mp found).1
  exact ⟨place, own, (List.getElem?_append_left inside).trans found, rfl, rfl⟩

theorem last (transcript : List Text) (rawLine : Text) :
    IsLineOf (transcript ++ [rawLine]) (transcript.length + 1) (trim rawLine) :=
  ⟨_, rawLine, List.getElem?_concat_length, rfl, rfl⟩

theorem bounds (h : IsLineOf transcript number text) :
    1 ≤ number ∧ number ≤ transcript.length := by
  obtain ⟨place, own, found, rfl, -⟩ := h
  exact ⟨Nat.le_add_left 1 place, (List.getElem?_eq_some_iff.mp found).1⟩

end IsLineOf

/-- What is gathered of a declaration: the line that begins it, under whose number it goes, and
    some later lines, none of which begins another. -/
inductive Pending.Gathers : List Text → Pending → Prop where
  | intro {earlier more parts : List Text} {first : Text}
      (begins : occurs Declaration.opening (trim first) = true)
      (within : parts.Sublist (more.map trim))
      (goesOn : ∀ part ∈ parts, occurs Declaration.opening part = false) :
      Gathers (earlier ++ first :: more)
        ⟨join (lit " ") (trim first :: parts), earlier.length + 1⟩

namespace Pending.Gathers

variable {transcript : List Text} {p : Pending}

theorem append_line (h : p.Gathers transcript) (rawLine : Text) :
    p.Gathers (transcript ++ [rawLine]) := by
  obtain @⟨earlier, more, parts, first, begins, within, goesOn⟩ := h
  rw [List.append_assoc, List.cons_append]
  refine .intro begins ?_ goesOn
  rw [List.map_append]
  exact within.trans (List.sublist_append_left _ _)

theorem append_part (h : p.Gathers transcript) {rawLine : Text}
    (goesOn : occurs Declaration.opening (trim rawLine) = false) :
    Gathers (transcript ++ [rawLine]) { p with text := p.text ++ lit " " ++ trim rawLine } := by
  obtain @⟨earlier, more, parts, first, begins, within, none⟩ := h
  have longer : join (lit " ") (trim first :: parts) ++ lit " " ++ trim rawLine =
      join (lit " ") (trim first :: (parts ++ [trim rawLine])) := by
    rw [← List.cons_append, join_append (List.cons_ne_nil _ _) (List.cons_ne_nil _ _),
      join_singleton]
  dsimp only
  rw [longer, List.append_assoc, List.cons_append]
  refine .intro begins ?_ ?_
  · rw [List.map_append]
    exact within.append (List.Sublist.refl _)
  · intro part mem
    rcases List.mem_append.mp mem with old | new
    · exact none part old
    · rw [List.mem_singleton.mp new]
      exact goesOn

theorem isLineOf (h : p.Gathers transcript) :
    ∃ text, IsLineOf transcript p.line text ∧ occurs Declaration.opening text = true := by
  obtain @⟨earlier, more, parts, first, begins, -, -⟩ := h
  exact ⟨trim first, ⟨earlier.length, first, by simp, rfl, rfl⟩, begins⟩

theorem gather {pending : Collector} (h : ∀ p ∈ pending, Gathers transcript p) (rawLine : Text) :
    ∀ p ∈ pending.gather (trim rawLine) (transcript.length + 1),
      Gathers (transcript ++ [rawLine]) p := by
  unfold Collector.gather
  split
  · next begins =>
      rintro p ⟨⟩
      have lone := @intro transcript [] [] rawLine begins (List.nil_sublist _) nofun
      rwa [join_singleton] at lone
  · next goesOn =>
      intro p gathered
      obtain ⟨old, mem, rfl⟩ := Option.map_eq_some_iff.mp gathered
      exact (h old mem).append_part (Bool.not_eq_true _ ▸ goesOn)

end Pending.Gathers

/-- A declaration of a transcript, which starts on its line. -/
def Declaration.StartsOn (transcript : List Text) (d : Declaration) : Prop :=
  ∃ p : Pending, p.Gathers transcript ∧ d.line = p.line ∧ Declaration.read? p.text p.line = some d

theorem Declaration.line_of_read? {text : Text} {line : Nat} {d : Declaration}
    (h : read? text line = some d) : d.line = line := by
  unfold read? at h
  simp only [Option.bind_eq_bind, Option.bind_eq_some_iff, Option.pure_def, Option.some.injEq] at h
  obtain ⟨_, -, _, -, rfl⟩ := h
  rfl

/-- What a collector holds on to or gives up is what it has gathered. -/
theorem Collector.gathered_of_feed {pending collector : Collector} {text : Text} {line : Nat}
    {found : Option Declaration} (fed : pending.feed text line = (collector, found)) :
    (∀ p ∈ collector, p ∈ pending.gather text line) ∧
      ∀ d ∈ found, ∃ p ∈ pending.gather text line, Declaration.read? p.text p.line = some d := by
  unfold feed at fed
  split at fed
  · cases fed
    exact ⟨nofun, nofun⟩
  · next p gathered =>
      split at fed
      · cases fed
        exact ⟨nofun, fun d read => ⟨p, gathered, read⟩⟩
      · cases fed
        refine ⟨?_, nofun⟩
        rintro _ ⟨⟩
        exact gathered

namespace Scanner

/-! ## What a scanner holds -/

/-- Everything that a scanner holds knows its line of the transcript. -/
structure Anchored (transcript : List Text) (s : Scanner) : Prop where
  pending : ∀ p ∈ s.collector, p.Gathers transcript
  hypothesis : ∀ d ∈ s.records.hypothesis, d.StartsOn transcript
  conjecture : ∀ d ∈ s.records.conjecture, d.StartsOn transcript
  current : ∀ block ∈ s.current, ∀ line ∈ block.lines, IsLineOf transcript line.line line.text
  proofs : s.records.proofs.Holds fun _ block =>
    ∀ line ∈ block.lines, IsLineOf transcript line.line line.text

namespace Anchored

variable {transcript : List Text} {s : Scanner}

theorem initial : Scanner.initial.Anchored [] :=
  ⟨nofun, nofun, nofun, nofun, Registry.holds_empty _⟩

theorem append_line (h : s.Anchored transcript) (rawLine : Text) :
    s.Anchored (transcript ++ [rawLine]) where
  pending p mem := (h.pending p mem).append_line rawLine
  hypothesis d mem := by
    obtain ⟨p, gathers, read⟩ := h.hypothesis d mem
    exact ⟨p, gathers.append_line rawLine, read⟩
  conjecture d mem := by
    obtain ⟨p, gathers, read⟩ := h.conjecture d mem
    exact ⟨p, gathers.append_line rawLine, read⟩
  current block opened line mem := (h.current block opened line mem).append_line rawLine
  proofs := h.proofs.imp fun _ _ anchored line mem => (anchored line mem).append_line rawLine

theorem closeBlock (h : s.Anchored transcript) : s.closeBlock.Anchored transcript := by
  obtain ⟨hypothesis, conjecture, -, -, -⟩ := s.frame_closeBlock
  refine ⟨h.pending, ?_, ?_, nofun, ?_⟩
  · rw [hypothesis]
    exact h.hypothesis
  · rw [conjecture]
    exact h.conjecture
  · unfold Scanner.closeBlock
    rcases opened : s.current with _ | block
    · exact h.proofs
    · exact Records.holds_proofs_addProof h.proofs (h.current block opened)

theorem entering (h : s.Anchored transcript) (rawLine : Text) :
    (s.entering rawLine).Anchored transcript := by
  have changed : Anchored transcript { s with phase := (s.phase.step rawLine).1 } :=
    ⟨h.pending, h.hypothesis, h.conjecture, h.current, h.proofs⟩
  unfold Scanner.entering
  dsimp only
  split
  · exact changed.closeBlock
  · exact changed

theorem takes {s' : Scanner} (h : s.Anchored transcript) {rawLine : Text} {event : Event}
    (said : event.IsSaidBy (trim rawLine)) (taken : Takes (transcript.length + 1) s event s') :
    s'.Anchored (transcript ++ [rawLine]) := by
  have before := h.append_line rawLine
  cases taken with
  | axiomStated =>
      exact ⟨before.pending, before.hypothesis, before.conjecture, before.current, before.proofs⟩
  | lemmaStated =>
      exact ⟨before.pending, before.hypothesis, before.conjecture, before.current, before.proofs⟩
  | knownBlockOpened =>
      refine ⟨before.pending, before.hypothesis, before.conjecture, ?_, before.proofs⟩
      rintro _ ⟨⟩ line mem
      cases mem
  | newBlockOpened =>
      refine ⟨before.pending, before.hypothesis, before.conjecture, ?_, before.proofs⟩
      rintro _ ⟨⟩ line mem
      cases mem
  | proofLine =>
      cases said
      refine ⟨before.pending, before.hypothesis, before.conjecture, ?_, before.proofs⟩
      intro block extended line mem
      obtain ⟨old, opened, rfl⟩ := Option.map_eq_some_iff.mp extended
      rcases List.mem_append.mp mem with earlier | last
      · exact before.current old opened line earlier
      · rw [List.mem_singleton.mp last]
        exact .last transcript rawLine
  | blockClosed => exact before.closeBlock
  | otherUnfinished fed =>
      -- The line is put to what was pending before it was taken up: from `h`, not from `before`.
      cases said
      obtain ⟨kept, -⟩ := Collector.gathered_of_feed fed
      have gathers := Pending.Gathers.gather h.pending rawLine
      exact ⟨fun p mem => gathers p (kept p mem), before.hypothesis, before.conjecture,
        before.current, before.proofs⟩
  | @otherDeclared _ collector declaration fed =>
      cases said
      obtain ⟨kept, declares⟩ := Collector.gathered_of_feed fed
      have gathers := Pending.Gathers.gather h.pending rawLine
      obtain ⟨p, mem, read⟩ := declares declaration rfl
      have starts : declaration.StartsOn (transcript ++ [rawLine]) :=
        ⟨p, gathers p mem, Declaration.line_of_read? read, read⟩
      have pending : ∀ p ∈ collector, p.Gathers (transcript ++ [rawLine]) :=
        fun p mem => gathers p (kept p mem)
      dsimp only [Records.addDeclaration]
      split
      · exact ⟨pending, by rintro _ ⟨⟩; exact starts, before.conjecture, before.current,
          before.proofs⟩
      · exact ⟨pending, before.hypothesis, by rintro _ ⟨⟩; exact starts, before.current,
          before.proofs⟩

theorem feed {s' : Scanner} (h : s.Anchored transcript) {rawLine : Text}
    (fed : s.feed rawLine (transcript.length + 1) = (s', none)) :
    s'.Anchored (transcript ++ [rawLine]) := by
  rcases feed_split fed with ⟨-, rfl⟩ | ⟨event, mem, -, taken⟩
  · exact (h.entering rawLine).append_line rawLine
  · exact (h.entering rawLine).takes (Phase.isSaidBy_of_step mem) taken

end Anchored

theorem anchored_of_after {transcript : List Text} {s : Scanner} (h : after transcript = .ok s) :
    s.Anchored transcript :=
  after_induction .initial (fun _ _ _ _ _ anchored fed => anchored.feed fed) h

/-! ## Errors on lines -/

/-- What is read on a line is at fault on that line. -/
theorem anchored_of_mapError {α : Type} {outcome : Except SyntaxError α} {line : Nat}
    {source : Text} {e : LineError}
    (h : outcome.mapError (fun fault => LineError.mk line source fault) = .error e) :
    e.line = line ∧ e.source = source := by
  obtain ⟨fault, -, rfl⟩ := mapError_error_iff.mp h
  exact ⟨rfl, rfl⟩

theorem anchored_of_openBlock_error {s s' : Scanner} {line : Nat} {source : Text}
    {heading : Heading} {e : LineError} (h : s.openBlock line source heading = (s', some e)) :
    e.line = line ∧ e.source = source := by
  unfold openBlock at h
  dsimp only at h
  split at h
  · cases h
  · split at h
    · next failed =>
        cases h
        exact anchored_of_mapError failed
    · cases h

theorem anchored_of_apply_error {s s' : Scanner} {line : Nat} {source : Text} {event : Event}
    {e : LineError} (h : s.apply line source event = (s', some e)) :
    e.line = line ∧ e.source = source := by
  cases event with
  | axiomStated name statement =>
      rcases read : readPlainOn line source statement with e' | expression
      · simp only [apply, read] at h
        cases h
        exact anchored_of_mapError read
      · simp only [apply, read] at h
        cases h
  | lemmaStated name statement hints =>
      rcases read : readOn line source statement with e' | expression
      · simp only [apply, read] at h
        cases h
        exact anchored_of_mapError read
      · simp only [apply, read] at h
        cases h
  | blockOpened heading => exact anchored_of_openBlock_error h
  | proofLine => cases h
  | blockClosed => cases h
  | other => cases h

theorem anchored_of_applyAll_error {s s' : Scanner} {line : Nat} {source : Text}
    {events : List Event} {e : LineError}
    (h : s.applyAll line source events = (s', some e)) : e.line = line ∧ e.source = source := by
  induction events generalizing s with
  | nil => cases h
  | cons event events ih =>
      rcases applied : s.apply line source event with ⟨next, _ | e'⟩
      · simp only [applyAll, applied] at h
        exact ih h
      · simp only [applyAll, applied] at h
        cases h
        exact anchored_of_apply_error applied

theorem anchored_of_feedAll_error {s : Scanner} {line : Nat} {transcript : List Text}
    {e : LineError} (h : s.feedAll line transcript = .error e) : ∃ place rawLine,
      transcript[place]? = some rawLine ∧ e.line = line + place ∧ e.source = trim rawLine := by
  obtain ⟨earlier, rawLine, later, before, s', rfl, -, fails⟩ := feedAll_error_iff.mp h
  exact ⟨earlier.length, rawLine, by simp, anchored_of_applyAll_error fails⟩

end Scanner

theorem Records.anchored_of_ofTranscript_error {text : Text} {e : LineError}
    (h : ofTranscript text = .error e) : IsLineOf (lines text) e.line e.source := by
  rcases bind_error_iff.mp h with failed | ⟨s, -, finished⟩
  · obtain ⟨place, rawLine, found, number, source⟩ := Scanner.anchored_of_feedAll_error failed
    exact ⟨place, rawLine, found, by omega, source⟩
  · cases finished

namespace CalcStep

variable {r : Renaming} {n : Naming} {e : LineError}

/-- An error puts the blame on a line of a proof: it has the line's number and shows its text. -/
def Blames (e : LineError) (line : ProofLine) : Prop := e.line = line.line ∧ e.source = line.text

/-- A side is at fault on its own line, or missing beside the justification. -/
theorem blames_of_readSide_error {side : Neighbour} {line : ProofLine}
    {neighbour : Option ProofLine} (h : readSide r side line neighbour = .error e) :
    Blames e line ∨ ∃ beside ∈ neighbour, Blames e beside := by
  unfold readSide at h
  split at h
  · cases h
    exact .inl ⟨rfl, rfl⟩
  · next beside =>
      split at h
      · split at h
        · cases h
        · cases h
          exact .inr ⟨beside, rfl, rfl, rfl⟩
      · cases h
        exact .inl ⟨rfl, rfl⟩

theorem blames_of_ofLines_error {before after : Option ProofLine} {line : ProofLine}
    (h : ofLines r n before line after = .error (.malformed e)) :
    Blames e line ∨ ∃ beside, (beside ∈ before ∨ beside ∈ after) ∧ Blames e beside := by
  unfold ofLines at h
  dsimp only at h
  split at h
  · cases h
  · simp only [bind_error_iff, mapError_error_iff] at h
    rcases h with ⟨_, failed, ⟨⟩⟩ | ⟨lhs, -, ⟨_, failed, ⟨⟩⟩ | ⟨rhs, -, ⟨_, -, ⟨⟩⟩ | ⟨name, -, ⟨⟩⟩⟩⟩
    · rcases blames_of_readSide_error failed with own | ⟨beside, mem, blamed⟩
      · exact .inl own
      · exact .inr ⟨beside, .inl mem, blamed⟩
    · rcases blames_of_readSide_error failed with own | ⟨beside, mem, blamed⟩
      · exact .inl own
      · exact .inr ⟨beside, .inr mem, blamed⟩

/-- The line before the first counts too: the first may be a justification, and it is its side. -/
theorem blames_of_ofLinesAfter_error {before : Option ProofLine} {lines : List ProofLine}
    (h : ofLinesAfter r n before lines = .error (.malformed e)) :
    ∃ line ∈ before.toList ++ lines, Blames e line := by
  induction lines generalizing before with
  | nil => cases h
  | cons line rest ih =>
      have later (failed : ofLinesAfter r n (some line) rest = .error (.malformed e)) :
          ∃ line' ∈ before.toList ++ line :: rest, Blames e line' := by
        obtain ⟨blamed, mem, blames⟩ := ih failed
        exact ⟨blamed, List.mem_append_right _ mem, blames⟩
      unfold ofLinesAfter at h
      split at h
      · simp only [bind_error_iff] at h
        rcases h with failed | ⟨step, -, failed | ⟨steps, -, ⟨⟩⟩⟩
        · rcases blames_of_ofLines_error failed with own | ⟨beside, mem, blames⟩
          · exact ⟨line, by simp, own⟩
          · refine ⟨beside, ?_, blames⟩
            rcases mem with before | after
            · exact List.mem_append_left _ (Option.mem_toList.mpr before)
            · have next := List.mem_of_mem_head? after
              exact List.mem_append_right _ (List.mem_cons_of_mem _ next)
        · exact later failed
      · exact later h

theorem blames_of_ofBlock_error {block : ProofBlock}
    (h : ofBlock r n block = .error (.malformed e)) : ∃ line ∈ block.lines, Blames e line :=
  blames_of_ofLinesAfter_error h

end CalcStep

theorem Law.anchored_of_ofDeclaration_error {d : Declaration} {e : LineError}
    (h : ofDeclaration d = .error e) : e.line = d.line ∧ e.source = d.formula := by
  unfold ofDeclaration at h
  split at h
  · cases h
  · cases h
    exact ⟨rfl, rfl⟩

/-! ## Errors of a translation -/

theorem Block.exists_of_ofLemma_error {n : Naming} {l : ResolvedLemma} {e : LineError}
    (h : ofLemma n l = .error (.malformed e)) : ∃ block, l.proof = some block ∧
      CalcStep.ofBlock (Renaming.scope l.expression) n block = .error (.malformed e) := by
  unfold ofLemma at h
  dsimp only at h
  split at h
  · next block stored =>
      rcases bind_error_iff.mp h with failed | ⟨proof, -, ⟨⟩⟩
      exact ⟨block, stored, map_error_iff.mp failed⟩
  · cases h

/-- A script is at fault in a block of a lemma or in one of the two laws. -/
theorem Script.of_assemble_error {hypothesis conjecture : Declaration} {n : Naming} {r : Resolution}
    {e : LineError} (h : assemble hypothesis conjecture n r = .error (.malformed e)) :
    (∃ l ∈ r.lemmas, Block.ofLemma n l = .error (.malformed e)) ∨
      Law.ofDeclaration hypothesis = .error e ∨ Law.ofDeclaration conjecture = .error e := by
  unfold assemble at h
  simp only [bind_error_iff, mapError_error_iff] at h
  rcases h with failed | ⟨_, -, ⟨_, failed, ⟨⟩⟩ | ⟨_, -, ⟨_, failed, ⟨⟩⟩ |
    ⟨_, -, ⟨_, failed, ⟨⟩⟩ | ⟨_, -, ⟨⟩⟩⟩⟩⟩
  · obtain ⟨l, mem, failed⟩ := exists_of_mapM_error failed
    refine .inl ⟨l, ?_, failed⟩
    rcases List.mem_append.mp mem with one | other
    · exact (List.mem_filter.mp one).1
    · exact (List.mem_filter.mp other).1
  · unfold closing at failed
    split at failed
    · cases failed
    · rcases bind_error_iff.mp failed with failed | ⟨_, -, ⟨⟩⟩
      exact .inr (.inr failed)
  · exact .inr (.inl failed)
  · exact .inr (.inr failed)

/-- A diagnostic that is anchored has the number of its line. -/
theorem Diagnostic.line_atLine {δ : Type} (d : Diagnostic δ) (line : Nat) (source : Text) :
    ∃ span, (d.atLine line source).span = some span ∧ span.line = some line := by
  cases offsets : d.span with
  | none => exact ⟨_, rfl, by rw [offsets]⟩
  | some span => exact ⟨_, rfl, by rw [offsets]⟩

namespace SyntaxError

/-- What is wrong with a text is not said with the number of a line. -/
theorem unnumbered (e : SyntaxError) : startsWith (lit "Line ") e.message = false := by
  cases e with
  | located fault input offset =>
      cases fault with
      | unexpectedEnd => rfl
      | expectedMark mark => rfl
      | notVariable found => rfl
      | extraText text => rfl
      | strayUnit found => rfl
      | strayToken value => rfl
      | unclosed found => rfl
      | notOperand found => rfl
  | whole lack input =>
      cases lack with
      | equals => rfl
      | neighbour side =>
          cases side with
          | left => rfl
          | right => rfl

end SyntaxError

namespace Translation

variable {text : Text} {o : Options}

/-- What an error of a translation puts the blame on: a line, when it is scanned; a line of a
    stored proof, when the chain of the proof is built; or a declared formula, when its law is
    written, under the line on which its declaration starts. -/
inductive Blames (text : Text) (e : LineError) : Prop where
  | scanned (failed : Records.ofTranscript text = .error e)
      (line : IsLineOf (lines text) e.line e.source) : Blames text e
  | chained {records : Records} {block : ProofBlock} {r : Renaming} {n : Naming}
      (scanned : Records.ofTranscript text = .ok records) (stored : block ∈ records.proofs.values)
      (failed : CalcStep.ofBlock r n block = .error (.malformed e))
      (line : IsLineOf (lines text) e.line e.source) : Blames text e
  | declared {records : Records} {d : Declaration}
      (scanned : Records.ofTranscript text = .ok records)
      (declared : records.hypothesis = some d ∨ records.conjecture = some d)
      (failed : Law.ofDeclaration d = .error e)
      (starts : d.StartsOn (lines text)) (line : e.line = d.line) (source : e.source = d.formula) :
      Blames text e

theorem Blames.bounds {e : LineError} (h : Blames text e) :
    1 ≤ e.line ∧ e.line ≤ (lines text).length := by
  cases h with
  | scanned failed line => exact line.bounds
  | chained scanned stored failed line => exact line.bounds
  | declared scanned declared failed starts line =>
      obtain ⟨p, gathers, same, -⟩ := starts
      obtain ⟨first, isLine, -⟩ := gathers.isLineOf
      rw [line, same]
      exact isLine.bounds

theorem parts_of_declared {r : Records} {hypothesis conjecture : Declaration}
    (h : declared r = .ok (hypothesis, conjecture)) :
    r.hypothesis = some hypothesis ∧ r.conjecture = some conjecture := by
  unfold declared at h
  split at h
  · cases h
  · cases h
  · next given concluded =>
      cases h
      exact ⟨given, concluded⟩

/-- What an error puts the blame on while the script is put together. -/
theorem blames_of_assemble_error {records : Records} {hypothesis conjecture : Declaration}
    {naming : Naming} {resolution : Resolution} {e : LineError}
    (scanned : Records.ofTranscript text = .ok records)
    (given : declared records = .ok (hypothesis, conjecture))
    (resolved : (Naming.initial o.hypothesisName).finalize records = (naming, .ok resolution))
    (h : Script.assemble hypothesis conjecture naming resolution = .error (.malformed e)) :
    Blames text e := by
  obtain ⟨s, reached, rfl⟩ := Records.ofTranscript_ok_iff.mp scanned
  have anchored := (Scanner.anchored_of_after reached).closeBlock
  obtain ⟨isHypothesis, isConjecture⟩ := parts_of_declared given
  rcases Script.of_assemble_error h with ⟨l, mem, failed⟩ | failed | failed
  · obtain ⟨block, proved, failed⟩ := Block.exists_of_ofLemma_error failed
    obtain ⟨record, -, named⟩ :=
      exists_of_forall₂_right (Naming.isFinal_of_finalize resolved).resolved mem
    obtain ⟨_, _, -, -, rfl⟩ := Naming.resolveLemma_ok_iff.mp named
    obtain ⟨line, within, number, source⟩ := CalcStep.blames_of_ofBlock_error failed
    have isLine := anchored.proofs _ block proved line within
    rw [← number, ← source] at isLine
    exact .chained scanned (Registry.mem_values_iff.mpr ⟨_, proved⟩) failed isLine
  · obtain ⟨number, source⟩ := Law.anchored_of_ofDeclaration_error failed
    exact .declared scanned (.inl isHypothesis) failed (anchored.hypothesis _ isHypothesis)
      number source
  · obtain ⟨number, source⟩ := Law.anchored_of_ofDeclaration_error failed
    exact .declared scanned (.inr isConjecture) failed (anchored.conjecture _ isConjecture)
      number source

theorem blames_of_ofTranscript_error {e : LineError}
    (h : (ofTranscript text o).2 = .error (.malformed e)) : Blames text e := by
  unfold ofTranscript at h
  rcases scanned : Records.ofTranscript text with e' | records
  · simp only [scanned] at h
    cases h
    exact .scanned scanned (Records.anchored_of_ofTranscript_error scanned)
  simp only [scanned] at h
  rcases given : declared records with failure | ⟨hypothesis, conjecture⟩
  · -- A formula that is not declared is another kind of error.
    simp only [given] at h
    unfold declared at given
    split at given
    · cases given
      cases h
    · cases given
      cases h
    · cases given
  simp only [given] at h
  rcases resolved : (Naming.initial o.hypothesisName).finalize records with
    ⟨naming, e' | resolution⟩
  · simp only [resolved] at h
    cases h
  simp only [resolved] at h
  rcases assembled : Script.assemble hypothesis conjecture naming resolution with failure | script
  · simp only [assembled] at h
    cases h
    exact blames_of_assemble_error scanned given resolved assembled
  · simp only [assembled] at h
    cases h

/-- Every parse error of a translation is a malformed text on a line of the transcript. Its
    diagnostic has the line's number in its span, states it once at the beginning of its message,
    and shows what the error puts the blame on. -/
theorem parse_error_anchored {failure : TranslationError}
    (h : (ofTranscript text o).2 = .error failure) (parse : failure.diagnostic.code = .parse) :
    ∃ e, failure = .malformed e ∧ 1 ≤ e.line ∧ e.line ≤ (lines text).length ∧
      (∃ span, failure.diagnostic.span = some span ∧ span.line = some e.line) ∧
      (∃ what, failure.diagnostic.message = lit "Line " ++ decimal e.line ++ lit ": " ++ what ∧
        startsWith (lit "Line ") what = false) ∧
      failure.diagnostic.context = some e.source ∧ Blames text e := by
  cases failure with
  | malformed e =>
      have blames := blames_of_ofTranscript_error h
      obtain ⟨first, last⟩ := blames.bounds
      exact ⟨e, rfl, first, last, e.error.diagnostic.line_atLine e.line e.source,
        ⟨_, rfl, e.error.unnumbered⟩, rfl, blames⟩
  | missingDependency e => cases parse
  | missingRecord role => cases parse

/-- A transcript that declares a malformed hypothesis over two lines. -/
def spreadFormula : Text := joinLines
  [ lit "fof(g,conjecture,X=X).",
    lit "fof(h,axiom,",
    lit "  X=op(X,))." ]

theorem spreadFormula_evaluated :
    (match (ofTranscript spreadFormula Options.standard).2 with
      | .error (.malformed e) => some (e.line, e.source)
      | _ => none) = some (2, lit "X=op(X,)") := by
  decide +kernel

/-- The formula is shown under the number of the line on which its declaration starts. -/
theorem parse_error_anchored_spreadFormula : ∃ failure e,
    (ofTranscript spreadFormula Options.standard).2 = .error failure ∧ failure = .malformed e ∧
    e.line = 2 ∧
    (∃ what, failure.diagnostic.message = lit "Line 2: " ++ what ∧
      startsWith (lit "Line ") what = false) ∧
    failure.diagnostic.context = some (lit "X=op(X,)") ∧ Blames spreadFormula e := by
  have evaluated := spreadFormula_evaluated
  rcases failed : (ofTranscript spreadFormula Options.standard).2 with failure | t
  · rw [failed] at evaluated
    cases failure with
    | malformed e =>
        obtain ⟨number, source⟩ := Prod.mk.inj (Option.some.inj evaluated)
        obtain ⟨_, ⟨⟩, -, -, -, ⟨what, message, once⟩, context, blames⟩ :=
          parse_error_anchored failed rfl
        have lead : lit "Line " ++ decimal 2 ++ lit ": " = lit "Line 2: " := by decide +kernel
        rw [number, lead] at message
        rw [source] at context
        exact ⟨_, e, rfl, rfl, number, ⟨what, message, once⟩, context, blames⟩
    | missingDependency => cases evaluated
    | missingRecord => cases evaluated
  · rw [failed] at evaluated
    cases evaluated

end Translation

end MagmaTrace
