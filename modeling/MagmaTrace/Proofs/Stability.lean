import MagmaTrace.Proofs.Coherence

/-! # Nothing recorded moves

A line of a transcript puts new names after the old ones and takes none back: what it replaces
stays in its place. So the numbers that lemmas and axioms are given do not depend on what comes
later. A lemma's expression changes only where the lemma is declared again, and no lemma ever goes
by the name of the hypothesis (`Scanner.discovery_stable`).
-/

namespace MagmaTrace

open Text

/-- Setting a key keeps the order of the keys before it. -/
theorem Registry.keys_prefix_insert {κ α : Type} [DecidableEq κ] (r : Registry κ α) (key : κ)
    (value : α) : r.keys <+: (r.insert key value).keys := by
  rw [Registry.keys_insert]
  split
  · exact List.prefix_rfl
  · exact List.prefix_append ..

theorem prefix_foldl_addNew {α : Type} [DecidableEq α] (xs ys : List α) :
    xs <+: ys.foldl addNew xs := by
  induction ys generalizing xs with
  | nil => exact List.prefix_rfl
  | cons y ys ih =>
      have here : xs <+: addNew xs y := by
        unfold addNew
        split
        · exact List.prefix_rfl
        · exact List.prefix_append ..
      exact here.trans (ih _)

namespace Records

/-! ## Records that go on -/

/-- Records that go on from others: every sequence of names begins as it was, and a formula that
    was declared is not undeclared. -/
structure GoesOn (r r' : Records) : Prop where
  axioms : r.axioms.keys <+: r'.axioms.keys
  lemmas : r.lemmas.keys <+: r'.lemmas.keys
  proofs : r.proofs.keys <+: r'.proofs.keys
  used : r.used <+: r'.used
  hypothesis : r.hypothesis.isSome = true → r'.hypothesis.isSome = true
  conjecture : r.conjecture.isSome = true → r'.conjecture.isSome = true

namespace GoesOn

theorem refl (r : Records) : r.GoesOn r :=
  ⟨List.prefix_rfl, List.prefix_rfl, List.prefix_rfl, List.prefix_rfl, id, id⟩

theorem trans {r r' r'' : Records} (h : r.GoesOn r') (h' : r'.GoesOn r'') : r.GoesOn r'' :=
  ⟨h.axioms.trans h'.axioms, h.lemmas.trans h'.lemmas, h.proofs.trans h'.proofs,
    h.used.trans h'.used, h'.hypothesis ∘ h.hypothesis, h'.conjecture ∘ h.conjecture⟩

end GoesOn

theorem goesOn_addAxiom (r : Records) (record : AxiomRecord) : r.GoesOn (r.addAxiom record) :=
  { GoesOn.refl r with axioms := r.axioms.keys_prefix_insert .. }

theorem goesOn_addLemma (r : Records) (record : LemmaRecord) : r.GoesOn (r.addLemma record) :=
  { GoesOn.refl r with lemmas := r.lemmas.keys_prefix_insert .. }

theorem goesOn_addReferences (r : Records) (references : List Text) :
    r.GoesOn (r.addReferences references) :=
  { GoesOn.refl r with used := prefix_foldl_addNew .. }

theorem goesOn_addDeclaration (r : Records) (d : Declaration) : r.GoesOn (r.addDeclaration d) := by
  unfold addDeclaration
  split
  · exact { GoesOn.refl r with hypothesis := fun _ => rfl }
  · exact { GoesOn.refl r with conjecture := fun _ => rfl }

theorem goesOn_addProof (r : Records) (block : ProofBlock) : r.GoesOn (r.addProof block) := by
  have proofs : r.proofs.keys <+: (r.addProof block).proofs.keys := by
    unfold addProof
    split
    · exact List.prefix_rfl
    · dsimp only
      split
      · exact r.proofs.keys_prefix_insert ..
      · exact r.proofs.keys_prefix_insert ..
  obtain ⟨hypothesis, conjecture, axioms, used, keys⟩ := r.frame_addProof block
  refine ⟨?_, ?_, proofs, ?_, ?_, ?_⟩
  · rw [axioms]
  · rw [keys]
  · rw [used]
  · rw [hypothesis]
    exact id
  · rw [conjecture]
    exact id

/-! ## Names on record -/

/-- Axioms and proofs are filed under the names they bear, and each reference is recorded once. -/
structure Labelled (r : Records) : Prop where
  axioms : r.axioms.Holds fun key record => record.name = key
  proofs : r.proofs.Holds fun key block => block.name = key
  used : r.used.Nodup

/-- Everything is filed under the name it bears, and no lemma bears the name of the hypothesis in
    any case. -/
structure WellFiled (r : Records) : Prop extends Labelled r where
  lemmas : r.lemmas.Holds fun key record => record.name = key
  notHypothesis : ∀ name ∈ r.lemmas.keys, lower name ≠ Dependency.hypothesisToken

theorem Labelled.empty : Records.empty.Labelled :=
  ⟨Registry.holds_empty _, Registry.holds_empty _, .nil⟩

theorem Labelled.addProof {r : Records} (h : r.Labelled) (block : ProofBlock) :
    (r.addProof block).Labelled := by
  obtain ⟨-, -, axioms, used, -⟩ := r.frame_addProof block
  exact ⟨axioms ▸ h.axioms, holds_proofs_addProof h.proofs rfl, used ▸ h.used⟩

theorem Labelled.wellFiled {r : Records} (h : r.Labelled) (coherent : r.Coherent) :
    r.WellFiled := by
  refine ⟨h, coherent.lemmas.imp fun _ _ filed => filed.name, ?_⟩
  intro name mem
  obtain ⟨record, found⟩ := Registry.mem_keys_iff.mp mem
  exact (coherent.lemmas name record found).notHypothesis

/-- A finished proof leaves what its lemma states. -/
theorem get?_lemmas_addProof {r : Records} (block : ProofBlock) {name : Text}
    {record : LemmaRecord} (found : r.lemmas.get? name = some record) : ∃ record',
      (r.addProof block).lemmas.get? name = some record' ∧
        record'.expression = record.expression := by
  unfold addProof
  split
  · exact ⟨record, found, rfl⟩
  · dsimp only
    split
    · exact ⟨record, found, rfl⟩
    · next old proved =>
        by_cases same : name = block.name
        · subst same
          rw [proved] at found
          cases found
          exact ⟨_, Registry.get?_insert_self .., rfl⟩
        · exact ⟨record, (Registry.get?_insert_of_ne _ _ same).trans found, rfl⟩

end Records

/-- A line that declares a lemma of a given name, with what it states. -/
def Event.Declares (rawLine name statement : Text) : Prop :=
  lemmaMarks.any (startsWith · (trim rawLine)) = true ∧
    ∃ hints, lemmaLine? (trim rawLine) = some (.lemmaStated name statement hints)

namespace Scanner

/-! ## Steps without an error -/

/-- A step without an error: a line of any number is taken up, or the transcript ends. -/
inductive Advances : (said : Option Text) → Scanner → Scanner → Prop where
  | fed {s s' : Scanner} {rawLine : Text} {line : Nat} (ok : s.feed rawLine line = (s', none)) :
      Advances (some rawLine) s s'
  | finished (s : Scanner) : Advances none s s.finish

/-- What a scanner comes to from the start by steps without an error. -/
inductive Reachable : Scanner → Prop where
  | initial : Reachable initial
  | advanced {said : Option Text} {s s' : Scanner} (before : Reachable s)
      (step : Advances said s s') : Reachable s'

/-- What is said in a step: what the line bears out, or that the open block ends. -/
def SaidIn (said : Option Text) (event : Event) : Prop :=
  match said with
  | some rawLine => event.IsSaidBy (trim rawLine)
  | none => event = .blockClosed

theorem SaidIn.exists_isSaidBy {said : Option Text} {event : Event} (h : SaidIn said event) :
    ∃ text, event.IsSaidBy text := by
  cases said with
  | some rawLine => exact ⟨_, h⟩
  | none =>
      cases h
      exact ⟨[], .blockClosed⟩

/-- What no change of phase and nothing said in a step undoes is kept by the step. -/
theorem Advances.preserves {P : Scanner → Prop} {said : Option Text}
    (changes : ∀ s phase, P s → P { s with phase := phase })
    (takes : ∀ line s event s', P s → SaidIn said event → Takes line s event s' → P s')
    {s s' : Scanner} (step : Advances said s s') (start : P s) : P s' := by
  cases step with
  | fed ok => exact feed_preserves changes (takes _) ok start
  | finished => exact changes _ _ (takes 0 s .blockClosed _ start rfl .blockClosed)

theorem Reachable.preserves {P : Scanner → Prop} (start : P Scanner.initial)
    (changes : ∀ s phase, P s → P { s with phase := phase })
    (takes : ∀ line text s event s', P s → Event.IsSaidBy text event → Takes line s event s' → P s')
    {s : Scanner} (h : s.Reachable) : P s := by
  induction h with
  | initial => exact start
  | advanced before step ih =>
      refine step.preserves changes (fun line s event s' hs said taken => ?_) ih
      obtain ⟨text, saidBy⟩ := said.exists_isSaidBy
      exact takes line text s event s' hs saidBy taken

theorem reachable_of_after {transcript : List Text} {s : Scanner} (h : after transcript = .ok s) :
    s.Reachable :=
  after_induction (P := fun _ s => s.Reachable) .initial
    (fun _ _ _ _ _ before fed => before.advanced (.fed fed)) h

/-! ## What steps keep -/

theorem goesOn_of_takes {s s' : Scanner} {line : Nat} {event : Event}
    (taken : Takes line s event s') : s.records.GoesOn s'.records := by
  cases taken with
  | axiomStated => exact s.records.goesOn_addAxiom _
  | lemmaStated => exact s.records.goesOn_addLemma _
  | knownBlockOpened => exact .refl s.records
  | newBlockOpened => exact s.records.goesOn_addLemma _
  | proofLine => exact s.records.goesOn_addReferences _
  | blockClosed =>
      unfold closeBlock
      cases s.current with
      | none => exact .refl s.records
      | some block => exact s.records.goesOn_addProof block
  | otherUnfinished => exact .refl s.records
  | otherDeclared => exact s.records.goesOn_addDeclaration _

theorem Advances.goesOn {said : Option Text} {s s' : Scanner} (step : Advances said s s') :
    s.records.GoesOn s'.records :=
  step.preserves (P := fun now => s.records.GoesOn now.records) (fun _ _ before => before)
    (fun _ _ _ _ before _ taken => before.trans (goesOn_of_takes taken)) (.refl s.records)

theorem labelled_of_takes {s s' : Scanner} {line : Nat} {event : Event} (h : s.records.Labelled)
    (taken : Takes line s event s') : s'.records.Labelled := by
  cases taken with
  | axiomStated => exact ⟨h.axioms.insert rfl, h.proofs, h.used⟩
  | lemmaStated => exact ⟨h.axioms, h.proofs, h.used⟩
  | knownBlockOpened => exact h
  | newBlockOpened => exact ⟨h.axioms, h.proofs, h.used⟩
  | proofLine => exact ⟨h.axioms, h.proofs, nodup_foldl_addNew h.used _⟩
  | blockClosed =>
      unfold closeBlock
      cases s.current with
      | none => exact h
      | some block => exact h.addProof block
  | otherUnfinished => exact h
  | @otherDeclared text collector declaration =>
      obtain ⟨hypothesis, conjecture, same⟩ := s.records.addDeclaration_eq declaration
      dsimp only
      rw [same]
      exact ⟨h.axioms, h.proofs, h.used⟩

theorem Reachable.labelled {s : Scanner} (h : s.Reachable) : s.records.Labelled :=
  h.preserves (P := fun s => s.records.Labelled) .empty (fun _ _ labelled => labelled)
    fun _ _ _ _ _ labelled _ taken => labelled_of_takes labelled taken

theorem Reachable.coherent {s : Scanner} (h : s.Reachable) : s.Coherent :=
  h.preserves .initial (fun _ phase hs => hs.changePhase phase)
    fun _ _ _ _ _ hs said taken => hs.takes said taken

theorem Reachable.wellFiled {s : Scanner} (h : s.Reachable) : s.records.WellFiled :=
  h.labelled.wellFiled h.coherent.records

/-- The lemma of a name is still there, and states what it did or what a line declares. -/
def Keeps (said : Option Text) (name : Text) (record : LemmaRecord) (s : Scanner) : Prop :=
  ∃ record', s.records.lemmas.get? name = some record' ∧
    (record'.expression = record.expression ∨
      ∃ rawLine statement, said = some rawLine ∧ Event.Declares rawLine name statement ∧
        Expression.ofFormula statement = .ok record'.expression)

theorem Keeps.takes {said : Option Text} {name : Text} {record : LemmaRecord} {s s' : Scanner}
    {line : Nat} {event : Event} (h : s.Keeps said name record) (isSaid : SaidIn said event)
    (taken : Takes line s event s') : s'.Keeps said name record := by
  obtain ⟨now, found, states⟩ := h
  cases taken with
  | axiomStated => exact ⟨now, found, states⟩
  | @lemmaStated declared statement hints expression read =>
      by_cases same : name = declared
      · subst same
        refine ⟨_, Registry.get?_insert_self .., .inr ?_⟩
        cases said with
        | some rawLine =>
            cases isSaid with
            | lemmaStated marked reads =>
                exact ⟨rawLine, statement, rfl, ⟨marked, hints, reads⟩, read⟩
        | none => cases isSaid
      · exact ⟨now, (Registry.get?_insert_of_ne _ _ same).trans found, states⟩
  | knownBlockOpened => exact ⟨now, found, states⟩
  | @newBlockOpened heading expression notHypothesis new =>
      -- A heading puts no lemma in the place of another.
      have other : name ≠ blockName s.records heading := by
        rintro rfl
        rw [Registry.contains, found] at new
        cases new
      exact ⟨now, (Registry.get?_insert_of_ne _ _ other).trans found, states⟩
  | proofLine => exact ⟨now, found, states⟩
  | blockClosed =>
      unfold closeBlock Keeps
      cases s.current with
      | none => exact ⟨now, found, states⟩
      | some block =>
          obtain ⟨proved, stored, same⟩ := Records.get?_lemmas_addProof block found
          exact ⟨proved, stored, same ▸ states⟩
  | otherUnfinished => exact ⟨now, found, states⟩
  | @otherDeclared text collector declaration =>
      obtain ⟨hypothesis, conjecture, same⟩ := s.records.addDeclaration_eq declaration
      unfold Keeps
      rw [same]
      exact ⟨now, found, states⟩

/-- A step without an error puts new names after the old ones, keeps everything filed under its
    name, and changes what a lemma states only by a line that declares the lemma. -/
theorem discovery_stable {said : Option Text} {s s' : Scanner} (reached : s.Reachable)
    (step : Advances said s s') :
    s.records.GoesOn s'.records ∧ s.records.WellFiled ∧ s'.records.WellFiled ∧
      ∀ name record, s.records.lemmas.get? name = some record → s'.Keeps said name record := by
  refine ⟨step.goesOn, reached.wellFiled, (reached.advanced step).wellFiled, ?_⟩
  intro name record found
  exact step.preserves (P := fun now => now.Keeps said name record) (fun _ _ kept => kept)
    (fun _ _ _ _ kept isSaid taken => kept.takes isSaid taken) ⟨record, found, .inl rfl⟩

/-! ## A lemma that is declared again -/

/-- Lines that prove a lemma from an axiom, before a line that declares it again. -/
def provedOnce : List Text :=
  [ lit "Axiom 1 (single_lemma_2): X = X.",
    Event.proofMarker,
    lit "Lemma 1 (single_lemma_1): X = X",
    lit "= \x7b by axiom 1 (single_lemma_2) \x7d",
    lit "RESULT" ]

def declaredAgain : Text := lit "% single_lemma_1: X = Y"

/-- What the lemma states before that line and after it, and whether the line is an error. -/
theorem declaredAgain_evaluated : (after provedOnce).toOption.map (fun s =>
    ((s.records.lemmas.get? (lit "single_lemma_1")).map (·.expression),
      ((s.feed declaredAgain 6).1.records.lemmas.get? (lit "single_lemma_1")).map (·.expression),
      (s.feed declaredAgain 6).2)) =
      some (some (.equation (.var (lit "X")) (.var (lit "X"))),
        some (.equation (.var (lit "X")) (.var (lit "Y"))), none) := by
  decide +kernel

/-- The line changes what the lemma states, and moves nothing. -/
theorem discovery_stable_declaredAgain : ∃ s s' record record', s.Reachable ∧
    Advances (some declaredAgain) s s' ∧ s.records.GoesOn s'.records ∧ s'.records.WellFiled ∧
    s.records.lemmas.get? (lit "single_lemma_1") = some record ∧
    s'.records.lemmas.get? (lit "single_lemma_1") = some record' ∧
    record'.expression ≠ record.expression ∧
    ∃ statement, Event.Declares declaredAgain (lit "single_lemma_1") statement ∧
      Expression.ofFormula statement = .ok record'.expression := by
  obtain ⟨s, scanned, evaluated⟩ := Option.map_eq_some_iff.mp declaredAgain_evaluated
  obtain ⟨before, rest⟩ := Prod.mk.inj evaluated
  obtain ⟨after, noError⟩ := Prod.mk.inj rest
  obtain ⟨record, found, states⟩ := Option.map_eq_some_iff.mp before
  have reached := reachable_of_after (toOption_eq_some_iff.mp scanned)
  have step : Advances (some declaredAgain) s (s.feed declaredAgain 6).1 :=
    .fed (Prod.ext rfl noError)
  obtain ⟨goesOn, -, wellFiled, kept⟩ := discovery_stable reached step
  obtain ⟨record', found', now⟩ := kept _ record found
  rw [found'] at after
  have states' : record'.expression = .equation (.var (lit "X")) (.var (lit "Y")) :=
    Option.some.inj after
  have changed : record'.expression ≠ record.expression := by
    rw [states, states']
    decide
  obtain ⟨_, statement, ⟨rfl⟩, declares, reads⟩ := now.resolve_left changed
  exact ⟨s, _, record, record', reached, step, goesOn, wellFiled, found, found', changed,
    statement, declares, reads⟩

end Scanner

theorem Records.wellFiled_of_ofTranscript {text : Text} {r : Records}
    (h : Records.ofTranscript text = .ok r) : r.WellFiled := by
  obtain ⟨s, scanned, rfl⟩ := Records.ofTranscript_ok_iff.mp h
  exact ((Scanner.reachable_of_after scanned).advanced (.finished s)).wellFiled

end MagmaTrace
