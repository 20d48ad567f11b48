import MagmaTrace.Proofs.Scan

/-! # Scanning without line numbers

Line numbers are recorded and never read while a transcript is scanned, and so are the inline
axioms. What is left of a scanner when both are forgotten is its outline: it changes on every line
that states no axiom as the scanner does, whatever the line's number
(`Scanner.feed_outline`).
-/

namespace MagmaTrace

open Text

/-! ## Outlines -/

def ProofLine.unplaced (line : ProofLine) : ProofLine := { line with line := 0 }

def ProofBlock.unplaced (block : ProofBlock) : ProofBlock :=
  { block with lines := block.lines.map .unplaced }

def LemmaRecord.unplaced (record : LemmaRecord) : LemmaRecord := { record with line := 0 }

def Declaration.unplaced (d : Declaration) : Declaration := { d with line := 0 }

def Pending.unplaced (p : Pending) : Pending := { p with line := 0 }

def LineError.unplaced (e : LineError) : LineError := { e with line := 0 }

/-- Records without line numbers and inline axioms. -/
def Records.outline (r : Records) : Records where
  hypothesis := r.hypothesis.map .unplaced
  conjecture := r.conjecture.map .unplaced
  axioms := ∅
  lemmas := r.lemmas.mapValues .unplaced
  proofs := r.proofs.mapValues .unplaced
  used := r.used

/-- A scanner without line numbers and inline axioms. -/
def Scanner.outline (s : Scanner) : Scanner where
  phase := s.phase
  current := s.current.map .unplaced
  collector := s.collector.map .unplaced
  records := s.records.outline

theorem ProofBlock.texts_unplaced (block : ProofBlock) :
    block.unplaced.lines.map (·.text) = block.lines.map (·.text) := by
  unfold unplaced
  rw [List.map_map]
  rfl

theorem ProofBlock.dependencies_unplaced (block : ProofBlock) :
    block.unplaced.dependencies = block.dependencies := by
  unfold dependencies
  rw [block.texts_unplaced]

theorem Declaration.read?_unplaced (text : Text) (line : Nat) :
    read? text 0 = (read? text line).map .unplaced := by
  unfold read?
  rcases first? fields? text with _ | ⟨name, role, formula⟩
  · rfl
  · rcases known : Role.ofWord? role with _ | role'
    · simp [known]
    · simp [known, unplaced]

namespace Collector

theorem gather_unplaced (pending : Collector) (text : Text) (line : Nat) :
    gather (pending.map .unplaced) text 0 = (pending.gather text line).map .unplaced := by
  unfold gather
  split
  · rfl
  · rw [Option.map_map, Option.map_map]
    rfl

theorem feed_unplaced (pending : Collector) (text : Text) (line : Nat) :
    feed (pending.map .unplaced) text 0 =
      ((pending.feed text line).1.map .unplaced, (pending.feed text line).2.map .unplaced) := by
  unfold feed
  rw [pending.gather_unplaced text line]
  rcases pending.gather text line with _ | p
  · rfl
  · by_cases ended : endsWith Declaration.ending p.text = true
    · have read := Declaration.read?_unplaced p.text p.line
      simp [Pending.unplaced, ended, read]
    · simp [Pending.unplaced, ended]

end Collector

/-! ## Outlines of records -/

namespace Records

variable (r : Records)

@[simp] theorem isHypothesisName_outline (name : Text) :
    r.outline.isHypothesisName name = r.isHypothesisName name := by
  unfold isHypothesisName outline
  cases r.hypothesis <;> rfl

@[simp] theorem isConjectureName_outline (name : Text) :
    r.outline.isConjectureName name = r.isConjectureName name := by
  unfold isConjectureName outline
  cases r.conjecture <;> rfl

@[simp] theorem contains_lemmas_outline (name : Text) :
    r.outline.lemmas.contains name = r.lemmas.contains name :=
  Registry.contains_mapValues ..

theorem outline_addLemma (record : LemmaRecord) :
    (r.addLemma record).outline = r.outline.addLemma record.unplaced := by
  unfold addLemma outline
  simp only [Registry.insert_mapValues]
  rfl

theorem outline_addDeclaration (d : Declaration) :
    (r.addDeclaration d).outline = r.outline.addDeclaration d.unplaced := by
  obtain ⟨name, role, formula, line⟩ := d
  cases role <;> rfl

theorem outline_addReferences (references : List Text) :
    (r.addReferences references).outline = r.outline.addReferences references := rfl

theorem outline_addProof (block : ProofBlock) :
    (r.addProof block).outline = r.outline.addProof block.unplaced := by
  unfold addProof
  have noLines : block.unplaced.lines = [] ↔ block.lines = [] := List.map_eq_nil_iff
  by_cases empty : block.lines = []
  · rw [if_pos empty, if_pos (noLines.mpr empty)]
  · rw [if_neg empty, if_neg (empty ∘ noLines.mp)]
    have found : r.outline.lemmas.get? block.unplaced.name =
        (r.lemmas.get? block.name).map .unplaced := Registry.get?_mapValues ..
    dsimp only
    rw [found]
    rcases r.lemmas.get? block.name with _ | record
    · simp only [outline, Registry.insert_mapValues, Option.map_none]
      rfl
    · simp only [outline, Registry.insert_mapValues, Option.map_some,
        block.dependencies_unplaced]
      rfl

end Records

/-! ## Outlines of scanners -/

namespace Scanner

variable (s : Scanner)

@[simp] theorem outline_records : s.outline.records = s.records.outline := rfl

theorem blockName_outline (r : Records) (heading : Heading) :
    blockName r.outline heading = blockName r heading := by
  unfold blockName Records.outline
  rcases heading.name with _ | name
  · cases heading.keyword with
    | auxiliary => cases r.conjecture <;> rfl
    | goal => cases r.conjecture <;> rfl
  · rfl

theorem outline_closeBlock : s.closeBlock.outline = s.outline.closeBlock := by
  unfold closeBlock outline
  cases s.current with
  | none => rfl
  | some block => simp only [Option.map_none, Option.map_some, Records.outline_addProof]

theorem outline_finish : s.finish.outline = s.outline.finish := by
  unfold finish
  rw [← outline_closeBlock]
  rfl

theorem readOn_unplaced (line : Nat) (source formula : Text) :
    readOn 0 source formula = (readOn line source formula).mapError .unplaced := by
  unfold readOn
  cases Expression.ofFormula formula <;> rfl

/-- The outline of what a step leaves, its error included. -/
def outlined (step : Scanner × Option LineError) : Scanner × Option LineError :=
  (step.1.outline, step.2.map .unplaced)

/-- An event that states no axiom changes the outline as it changes the scanner. -/
theorem apply_outline {event : Event} (line : Nat) (source : Text)
    (noAxiom : ∀ name statement, event ≠ .axiomStated name statement) :
    s.outline.apply 0 source event = outlined (s.apply line source event) := by
  unfold outlined
  cases event with
  | axiomStated name statement => exact absurd rfl (noAxiom name statement)
  | lemmaStated name statement hints =>
      simp only [apply, readOn_unplaced line]
      rcases readOn line source statement with e | expression
      · rfl
      · simp only [Except.mapError, outline, Records.outline_addLemma]
        rfl
  | blockOpened heading =>
      simp only [apply, openBlock, outline_records, blockName_outline,
        Records.isHypothesisName_outline, Records.contains_lemmas_outline, readOn_unplaced line]
      split
      · rfl
      · rcases readOn line source heading.statement with e | expression
        · rfl
        · simp only [Except.mapError, outline, Records.outline_addLemma]
          rfl
  | proofLine text references =>
      simp only [apply, outline, Records.outline_addReferences, Option.map_map]
      cases s.current with
      | none => rfl
      | some block =>
          simp [ProofBlock.unplaced, ProofLine.unplaced]
  | blockClosed =>
      simp only [apply, outline_closeBlock]
      rfl
  | other text =>
      have fed := s.collector.feed_unplaced text line
      simp only [apply, outline, fed]
      rcases (s.collector.feed text line).2 with _ | declaration
      · rfl
      · simp only [Option.map_some, Records.outline_addDeclaration]
        rfl

theorem applyAll_outline (line : Nat) (source : Text) {events : List Event}
    (noAxiom : ∀ name statement, .axiomStated name statement ∉ events) :
    s.outline.applyAll 0 source events = outlined (s.applyAll line source events) := by
  induction events generalizing s with
  | nil => rfl
  | cons event events ih =>
      have first : ∀ name statement, event ≠ .axiomStated name statement :=
        fun name statement same => noAxiom name statement (same ▸ List.mem_cons_self)
      have others : ∀ name statement, .axiomStated name statement ∉ events :=
        fun name statement mem => noAxiom name statement (List.mem_cons_of_mem _ mem)
      rw [applyAll, applyAll, s.apply_outline line source first]
      rcases s.apply line source event with ⟨next, _ | e⟩
      · exact ih next others
      · rfl

/-- A line that states no axiom changes the outline as it changes the scanner. -/
theorem feed_outline {rawLine : Text} (line : Nat)
    (noAxiom : Event.axiomLine? (trim rawLine) = none) :
    s.outline.feed rawLine 0 = outlined (s.feed rawLine line) := by
  have silent : ∀ name statement, .axiomStated name statement ∉ (s.phase.step rawLine).2 := by
    intro name statement mem
    cases Phase.isSaidBy_of_step mem with
    | axiomStated reads =>
        rw [noAxiom] at reads
        cases reads
  exact applyAll_outline { s with phase := (s.phase.step rawLine).1 } line (trim rawLine) silent

/-! ## Whole transcripts -/

/-- Take up lines without counting them. -/
def feedUncounted (s : Scanner) : List Text → Except LineError Scanner
  | [] => .ok s
  | rawLine :: rest =>
    match s.feed rawLine 0 with
    | (_, some e) => .error e
    | (s, none) => s.feedUncounted rest

end Scanner

namespace Event

/-- Whether a line states an inline axiom. -/
def isAxiomLine (rawLine : Text) : Bool := (axiomLine? (trim rawLine)).isSome

/-- The axiom that a line states, if it states a well-formed one. -/
def axiomStated? (rawLine : Text) : Option (Text × Expression) :=
  match axiomLine? (trim rawLine) with
  | some (.axiomStated name statement) => (Expression.read statement).toOption.map (name, ·)
  | _ => none

end Event

namespace Scanner

/-- An axiom leaves the outline as it is, and is an error if it is malformed. -/
theorem feed_axiomLine (s : Scanner) {rawLine : Text} (line : Nat)
    (isAxiom : Event.isAxiomLine rawLine = true) :
    (s.feed rawLine line).1.outline = s.outline ∧
      (s.feed rawLine line).2.isNone = (Event.axiomStated? rawLine).isSome := by
  obtain ⟨event, reads⟩ := Option.isSome_iff_exists.mp isAxiom
  obtain ⟨name, statement, rfl⟩ := Event.eq_axiomStated_of_axiomLine? reads
  have said : s.phase.step rawLine = (s.phase, [.axiomStated name statement]) := by
    simp only [Phase.step, reads]
  simp only [feed, said, applyAll, apply, readPlainOn, Event.axiomStated?, reads]
  cases Expression.read statement with
  | error e => exact ⟨rfl, rfl⟩
  | ok expression => exact ⟨rfl, rfl⟩

/-- A transcript is taken up without an error when every axiom in it is well-formed and the other
    lines are taken up alone. The outline is theirs. -/
theorem feedAll_outline_iff {s e : Scanner} {line : Nat} {transcript : List Text} :
    (∃ s', s.feedAll line transcript = .ok s' ∧ s'.outline = e) ↔
      (∀ rawLine ∈ transcript.filter Event.isAxiomLine,
          (Event.axiomStated? rawLine).isSome = true) ∧
        s.outline.feedUncounted (transcript.filter (!Event.isAxiomLine ·)) = .ok e := by
  induction transcript generalizing s line with
  | nil => simp [feedAll, feedUncounted]
  | cons rawLine rest ih =>
      cases isAxiom : Event.isAxiomLine rawLine with
      | true =>
          simp only [isAxiom, List.filter_cons_of_pos, Bool.not_true, Bool.false_eq_true,
            not_false_eq_true, List.filter_cons_of_neg, List.forall_mem_cons, feedAll]
          obtain ⟨same, reads⟩ := s.feed_axiomLine line isAxiom
          rcases fed : s.feed rawLine line with ⟨s', _ | e'⟩
          · rw [fed] at same reads
            rw [← reads, ← same]
            simpa using ih
          · rw [fed] at reads
            rw [← reads]
            simp
      | false =>
          have noAxiom : Event.axiomLine? (trim rawLine) = none := by
            simpa [Event.isAxiomLine] using isAxiom
          simp only [isAxiom, Bool.false_eq_true, not_false_eq_true, List.filter_cons_of_neg,
            Bool.not_false, List.filter_cons_of_pos, feedAll, feedUncounted,
            s.feed_outline line noAxiom]
          rcases s.feed rawLine line with ⟨s', _ | e'⟩
          · exact ih
          · simp [outlined]

end Scanner

end MagmaTrace
