import MagmaTrace.Proofs.Scan
import MagmaTrace.Proofs.Searching
import MagmaTrace.Proofs.Solid

/-! # Coherent records

Whatever a transcript says, a lemma is filed under its own name and is never the hypothesis,
its dependencies have the kinds that their names call for, and every reference on a line of a
stored proof is recorded as used. The lines of the open block are in on the last part, since
a block is stored long after its references were recorded.
-/

namespace MagmaTrace

open Text

/-! ## The names of declared lemmas -/

namespace Event

theorem named?_sound {passed text name statement : Text}
    (h : named? passed text = some (name, statement)) :
    ∃ more rest, name = passed ++ more ∧ text = more ++ lit ":" ++ rest := by
  induction text generalizing passed with
  | nil => cases h
  | cons u rest ih =>
      have later (found : named? (passed ++ [u]) rest = some (name, statement)) :
          ∃ more after, name = passed ++ more ∧ u :: rest = more ++ lit ":" ++ after := by
        obtain ⟨more, after, rfl, rfl⟩ := ih found
        exact ⟨u :: more, after, by simp, rfl⟩
      unfold named? at h
      split at h
      · cases h
      · by_cases here : u = ':' ∧ passed ≠ []
        · rcases single : restOfLine? rest with _ | found
          · simp only [here, single, ne_eq, not_false_eq_true, and_self, if_true] at h
            exact later (here.1 ▸ h)
          · simp only [here, single, ne_eq, not_false_eq_true, and_self, if_true] at h
            cases h
            exact ⟨[], rest, (List.append_nil _).symm, congrArg (· :: rest) here.1⟩
        · simp only [here, if_false] at h
          exact later h

/-- What a mark of a declared lemma begins, after the comment sign. -/
def lemmaLeads : List Text := [lit "single_lemma_", lit "history_lemma_"]

theorem spelling_of_lead : ∀ lead ∈ lemmaLeads, IsSolid lead ∧ lead ≠ [] ∧ (':' : CodeUnit) ∉ lead ∧
    ('|' : CodeUnit) ∉ lit "% " ++ lead := by
  decide

/-- The part of a declared lemma's line before the hints begins as the line does. -/
theorem trim_before_hints {lead : Text} (known : lead ∈ lemmaLeads) (rest : Text) :
    ∃ more, trim ((lit "% " ++ lead ++ rest).takeWhile (· != ('|' : CodeUnit))) =
      lit "% " ++ lead ++ more := by
  obtain ⟨solid, nonempty, -, noBar⟩ := spelling_of_lead lead known
  have kept : ∀ u ∈ lit "% " ++ lead, (u != ('|' : CodeUnit)) = true := by
    intro u mem
    rw [bne_iff_ne]
    exact fun bar => noBar (bar ▸ mem)
  rw [List.takeWhile_append_of_pos kept]
  have front (tail : Text) : skipBlanks (lit "% " ++ lead ++ tail) = lit "% " ++ lead ++ tail := rfl
  rw [trim, front, dropEndWhile_append_solid solid nonempty]
  exact ⟨_, rfl⟩

/-- A name that ends at a colon begins as the text does, up to where the colon can stand. -/
theorem begins_of_named? {lead more name statement : Text} (noColon : (':' : CodeUnit) ∉ lead)
    (h : named? [] (lead ++ more) = some (name, statement)) : lead <+: name := by
  obtain ⟨whole, rest, same, split⟩ := named?_sound h
  rw [List.nil_append] at same
  rw [same]
  have lead_begins : lead <+: lead ++ more := List.prefix_append ..
  have name_begins : whole ++ lit ":" <+: lead ++ more := split ▸ List.prefix_append ..
  have colon : (':' : CodeUnit) ∈ whole ++ lit ":" := List.mem_append_right _ List.mem_cons_self
  rcases List.prefix_or_prefix_of_prefix lead_begins name_begins with within | beyond
  · rcases List.prefix_concat_iff.mp within with rfl | within
    · exact absurd colon noColon
    · exact within
  · exact absurd (beyond.subset colon) noColon

/-- A declared lemma has a name that begins as its mark says. -/
theorem IsSaidBy.lemma_name {line name statement : Text} {hints : List Text}
    (h : IsSaidBy line (.lemmaStated name statement hints)) : ∃ lead ∈ lemmaLeads, lead <+: name := by
  cases h with
  | lemmaStated marked reads =>
      have marks : lemmaMarks = lemmaLeads.map (lit "% " ++ ·) := rfl
      rw [marks, List.any_map, List.any_eq_true] at marked
      obtain ⟨lead, known, begins⟩ := marked
      obtain ⟨rest, stripped⟩ := Option.isSome_iff_exists.mp begins
      rw [strip?_eq_some.mp stripped] at reads
      obtain ⟨more, before⟩ := trim_before_hints known rest
      obtain ⟨solid, nonempty, noColon, -⟩ := spelling_of_lead lead known
      have comment : strip? (lit "%") (lit "% " ++ lead ++ more) = some (lit " " ++ lead ++ more) :=
        strip?_eq_some.mpr rfl
      have space : skipBlanks (lit " " ++ lead ++ more) = lead ++ more := by
        rw [List.append_assoc, skipBlanks_blank_append (by decide),
          skipBlanks_solid_append solid nonempty]
      unfold lemmaLine? at reads
      dsimp only at reads
      rw [before, comment, Option.bind_eq_bind, Option.bind_some, space] at reads
      obtain ⟨⟨found, _⟩, named, same⟩ := Option.bind_eq_some_iff.mp reads
      cases same
      exact ⟨lead, known, begins_of_named? noColon named⟩

/-- No declared lemma goes by the name of the hypothesis in any case. -/
theorem IsSaidBy.lower_lemma_name {line name statement : Text} {hints : List Text}
    (h : IsSaidBy line (.lemmaStated name statement hints)) :
    lower name ≠ Dependency.hypothesisToken := by
  obtain ⟨lead, known, rest, rfl⟩ := h.lemma_name
  rcases List.mem_pair.mp known with rfl | rfl
  · intro same
    cases (List.cons.inj same).1
  · intro same
    cases (List.cons.inj same).1

end Event

/-! ## What is kept -/

/-- All references on a proof's lines are among some names. -/
def ProofBlock.CitesWithin (block : ProofBlock) (names : List Text) : Prop :=
  ∀ line ∈ block.lines, ∀ token ∈ Dependency.references line.text, token ∈ names

theorem ProofBlock.CitesWithin.mono {block : ProofBlock} {names more : List Text}
    (h : block.CitesWithin names) (within : ∀ name ∈ names, name ∈ more) : block.CitesWithin more :=
  fun line mem token cites => within token (h line mem token cites)

theorem ProofBlock.citesWithin_nil (name : Text) (names : List Text) :
    CitesWithin ⟨name, []⟩ names := by
  simp [CitesWithin]

theorem ProofBlock.CitesWithin.append_line {block : ProofBlock} {names : List Text}
    (h : block.CitesWithin names) {line : ProofLine}
    (within : ∀ token ∈ Dependency.references line.text, token ∈ names) :
    CitesWithin { block with lines := block.lines ++ [line] } names := by
  intro other mem
  rcases List.mem_append.mp mem with old | new
  · exact h other old
  · rw [List.mem_singleton.mp new]
    exact within

/-- A record filed under its own name, which is not the hypothesis's, with dependencies of the
    kinds that their names call for. -/
structure LemmaRecord.FiledUnder (key : Text) (record : LemmaRecord) : Prop where
  name : record.name = key
  notHypothesis : lower key ≠ Dependency.hypothesisToken
  kinds : ∀ d ∈ record.dependencies, d = Dependency.ofName d.name

structure Records.Coherent (r : Records) : Prop where
  lemmas : r.lemmas.Holds LemmaRecord.FiledUnder
  proofs : r.proofs.Holds fun _ block => block.CitesWithin r.used

structure Scanner.Coherent (s : Scanner) : Prop where
  records : s.records.Coherent
  current : ∀ block ∈ s.current, block.CitesWithin s.records.used

namespace Records

theorem Coherent.empty : Records.empty.Coherent :=
  ⟨Registry.holds_empty _, Registry.holds_empty _⟩

/-- No lemma goes by the token of the hypothesis. -/
theorem Coherent.hypothesis_not_lemma {r : Records} (h : r.Coherent) :
    Dependency.hypothesisToken ∉ r.lemmas.keys := by
  intro mem
  obtain ⟨record, found⟩ := Registry.mem_keys_iff.mp mem
  exact (h.lemmas _ record found).notHypothesis rfl

theorem Coherent.addLemma {r : Records} (h : r.Coherent) {record : LemmaRecord}
    (filed : record.FiledUnder record.name) : (r.addLemma record).Coherent :=
  ⟨h.lemmas.insert filed, h.proofs⟩

theorem mem_used_addReferences {r : Records} {references : List Text} {name : Text} :
    name ∈ (r.addReferences references).used ↔ name ∈ r.used ∨ name ∈ references :=
  mem_foldl_addNew

theorem Coherent.addReferences {r : Records} (h : r.Coherent) (references : List Text) :
    (r.addReferences references).Coherent :=
  ⟨h.lemmas, h.proofs.imp fun _ _ within =>
    within.mono fun _ mem => mem_used_addReferences.mpr (.inl mem)⟩

theorem Coherent.addDeclaration {r : Records} (h : r.Coherent) (d : Declaration) :
    (r.addDeclaration d).Coherent := by
  obtain ⟨hypothesis, conjecture, same⟩ := r.addDeclaration_eq d
  rw [same]
  exact ⟨h.lemmas, h.proofs⟩

theorem kinds_ofLines {lines : List Text} :
    ∀ d ∈ Dependency.ofLines lines, d = Dependency.ofName d.name := by
  intro d mem
  obtain ⟨name, -, rfl⟩ := List.mem_map.mp mem
  rfl

theorem Coherent.addProof {r : Records} (h : r.Coherent) {block : ProofBlock}
    (within : block.CitesWithin r.used) : (r.addProof block).Coherent := by
  unfold Records.addProof
  split
  · exact h
  · dsimp only
    split
    · exact ⟨h.lemmas, h.proofs.insert within⟩
    · next record found =>
        have filed := h.lemmas block.name record found
        exact ⟨h.lemmas.insert ⟨filed.name, filed.notHypothesis, kinds_ofLines⟩,
          h.proofs.insert within⟩

end Records

namespace Scanner

theorem Coherent.initial : initial.Coherent :=
  ⟨.empty, by simp [Scanner.initial]⟩

theorem Coherent.closeBlock {s : Scanner} (h : s.Coherent) : s.closeBlock.Coherent := by
  refine ⟨?_, fun block open_ => by cases open_⟩
  unfold Scanner.closeBlock
  rcases opened : s.current with _ | block
  · exact h.records
  · exact h.records.addProof (h.current block opened)

theorem Coherent.takes {s s' : Scanner} {line : Nat} {text : Text} {event : Event} (h : s.Coherent)
    (said : event.IsSaidBy text) (taken : Takes line s event s') : s'.Coherent := by
  cases taken with
  | axiomStated => exact ⟨⟨h.records.lemmas, h.records.proofs⟩, h.current⟩
  | lemmaStated =>
      refine ⟨h.records.addLemma ⟨rfl, said.lower_lemma_name, ?_⟩, h.current⟩
      intro d mem
      obtain ⟨name, -, rfl⟩ := List.mem_map.mp mem
      rfl
  | knownBlockOpened =>
      refine ⟨h.records, fun block opened => ?_⟩
      cases opened
      exact ProofBlock.citesWithin_nil _ _
  | newBlockOpened notHypothesis =>
      refine ⟨h.records.addLemma ⟨rfl, ?_, by simp⟩, fun block opened => ?_⟩
      · intro same
        simp [Records.isHypothesisName, same] at notHypothesis
      · cases opened
        exact ProofBlock.citesWithin_nil _ _
  | proofLine =>
      cases said with
      | proofLine =>
          -- The line's references are recorded with it, long before its block is stored.
          refine ⟨h.records.addReferences _, fun block extended => ?_⟩
          obtain ⟨old, opened, rfl⟩ := Option.map_eq_some_iff.mp extended
          have before : old.CitesWithin (s.records.addReferences (Dependency.references text)).used :=
            (h.current old opened).mono fun _ mem => Records.mem_used_addReferences.mpr (.inl mem)
          exact before.append_line fun _ mem => Records.mem_used_addReferences.mpr (.inr mem)
  | blockClosed => exact h.closeBlock
  | otherUnfinished => exact ⟨h.records, h.current⟩
  | @otherDeclared text collector declaration =>
      obtain ⟨hypothesis, conjecture, same⟩ := s.records.addDeclaration_eq declaration
      refine ⟨h.records.addDeclaration declaration, ?_⟩
      rw [same]
      exact h.current

theorem Coherent.changePhase {s : Scanner} (h : s.Coherent) (phase : Phase) :
    Coherent { s with phase := phase } :=
  ⟨h.records, h.current⟩

theorem coherent_of_after {transcript : List Text} {s : Scanner} (h : after transcript = .ok s) :
    s.Coherent :=
  after_preserves .initial (fun _ phase hs => hs.changePhase phase)
    (fun _ _ _ _ _ hs said taken => hs.takes said taken) h

end Scanner

theorem Records.coherent_of_ofTranscript {text : Text} {r : Records}
    (h : Records.ofTranscript text = .ok r) : r.Coherent := by
  obtain ⟨s, scanned, rfl⟩ := Records.ofTranscript_ok_iff.mp h
  exact (Scanner.coherent_of_after scanned).closeBlock.records

end MagmaTrace
