import MagmaTrace.Proofs.Passages

/-! # Reading transcripts back

Scanning a well-formed transcript leaves on record exactly what the transcript was printed from
(`Manuscript.ofTranscript_text`).
-/

namespace MagmaTrace

open Text

namespace Manuscript

variable (m : Manuscript)

/-! ## Lines -/

theorem isLine_of_isTrimmed {text : Text} (trimmed : IsTrimmed text) (noFeed : newline ∉ text) :
    IsLine text := by
  refine ⟨noFeed, fun last => ?_⟩
  exact absurd (trimmed.last carriageReturn last) (by decide)

theorem isUnbroken_digits (number : Digits) : IsUnbroken number :=
  .of_isSolid fun u mem => isBlank_of_isDigit (number.2.2 u mem)

theorem isUnbroken_hints (hints : List HintName) :
    IsUnbroken (join (lit ", ") (hints.map (·.1))) := by
  intro u mem
  rcases mem_join mem with comma | ⟨piece, among, inside⟩
  · exact (by decide : IsUnbroken (lit ", ")) u comma
  · obtain ⟨hint, -, rfl⟩ := List.mem_map.mp among
    exact IsUnbroken.of_isSolid hint.2.2.1 u inside

theorem isLine_entryLine (entry : Entry) : IsLine (m.entryLine entry) := by
  cases entry with
  | formula role =>
      -- The variables of the quantifier may break the line in other ways than by a line feed.
      have noFeed {text : Text} (unbroken : IsUnbroken text) : newline ∉ text :=
        fun mem => absurd (unbroken _ mem) (by decide)
      have word : newline ∉ role.word := by cases role <;> decide
      refine isLine_of_isTrimmed (m.isTrimmed_formula role) ?_
      simp only [entryLine, Formula.text, List.mem_append, not_or]
      exact ⟨⟨⟨⟨⟨⟨by decide, noFeed (.of_isSolid (m.formula role).solid)⟩, by decide⟩, word⟩,
        by decide⟩, ⟨⟨⟨by decide, (m.formula role).noFeed⟩, by decide⟩,
          noFeed (m.formula role).equation.isUnbroken_text⟩, by decide⟩, by decide⟩
  | inlineAxiom number name equation =>
      refine .of_isUnbroken ?_
      simp only [entryLine, isUnbroken_append]
      exact ⟨⟨⟨⟨⟨⟨by decide, isUnbroken_digits number⟩, by decide⟩, .of_isSolid name.2.2.1⟩,
        by decide⟩, equation.isUnbroken_text⟩, by decide⟩
  | declaredLemma name equation hints =>
      have word : IsUnbroken name := .of_isSolid fun u mem =>
        isBlank_of_isWord (LemmaToken.isWord_of_mem name u mem)
      refine .of_isUnbroken ?_
      simp only [entryLine, isUnbroken_append]
      exact ⟨⟨⟨⟨⟨by decide, word⟩, by decide⟩, equation.isUnbroken_text⟩, by decide⟩,
        isUnbroken_hints hints⟩

theorem isUnbroken_reason (r : Reason) : IsUnbroken r.line := by
  cases r with
  | byAxiom number name =>
      simp only [Reason.line, isUnbroken_append]
      exact ⟨⟨⟨⟨by decide, isUnbroken_digits number⟩, by decide⟩, .of_isSolid name.2.2.1⟩,
        by decide⟩
  | byLemma number =>
      simp only [Reason.line, isUnbroken_append]
      exact ⟨⟨by decide, isUnbroken_digits number⟩, by decide⟩

theorem Passage.isLine_of_mem (p : Passage) {line : Text} (mem : line ∈ p.lines) : IsLine line := by
  refine .of_isUnbroken ?_
  rcases List.mem_cons.mp mem with rfl | mem
  · have word : IsUnbroken p.keyword.word := by cases p.keyword <;> decide
    have digits : IsUnbroken p.digits := isUnbroken_digits ⟨p.digits, p.isNumber_digits⟩
    rw [p.heading_eq]
    simp only [isUnbroken_append]
    exact ⟨word, by decide, digits, by decide, p.equation.isUnbroken_text, by decide⟩
  rcases List.mem_append.mp mem with inBody | last
  · have term (t : ProofTerm) : IsUnbroken t.1.tptp := .of_isSolid (Term.isSolid_tptp t.2.1)
    exact p.of_mem_body (by decide) term isUnbroken_reason line inBody
  · rw [List.mem_singleton.mp last]
    decide

theorem lines_text : Text.lines m.text = m.lines := by
  refine lines_joinLines (by simp [lines]) fun line mem => ?_
  rcases List.mem_append.mp mem with inHeader | mem
  · obtain ⟨entry, -, rfl⟩ := List.mem_map.mp inHeader
    exact m.isLine_entryLine entry
  · rcases List.mem_cons.mp mem with rfl | inBlocks
    · exact .of_isUnbroken (by decide)
    · obtain ⟨p, -, mem⟩ := List.mem_flatMap.mp inBlocks
      exact p.isLine_of_mem mem

/-! ## Names on record -/

theorem names_recorded {α : Type} {record? : Nat → Entry → Option α} {name : α → Text}
    {name? : Entry → Option Text}
    (named : ∀ line entry, (record? line entry).map name = name? entry)
    (entries : List Entry) : (recorded record? entries).map name = entries.filterMap name? := by
  have numbers : entries = (entries.zipIdx 1).map (·.1) := (List.zipIdx_map_fst ..).symm
  conv_rhs => rw [numbers]
  simp only [recorded, List.map_filterMap, List.filterMap_map, named, Function.comp_def]

theorem place_append_singleton (line : Nat) (blocks : List Passage) (p : Passage) :
    Passage.place line (blocks ++ [p]) =
      Passage.place line blocks ++ [(p, line + (blocks.flatMap Passage.lines).length)] := by
  induction blocks generalizing line with
  | nil => rfl
  | cons first rest ih =>
      simp only [List.cons_append, Passage.place, ih, List.flatMap_cons, List.length_append,
        Nat.add_assoc]

theorem map_place (line : Nat) (blocks : List Passage) :
    (Passage.place line blocks).map (·.1) = blocks := by
  induction blocks generalizing line with
  | nil => rfl
  | cons first rest ih => rw [Passage.place, List.map_cons, ih]

theorem names_declaredLemmas (entries : List Entry) :
    (declaredLemmas entries).map (·.name) = entries.filterMap Entry.lemmaName? :=
  names_recorded (fun _ entry => by cases entry <;> rfl) entries

theorem names_axiomRecords (entries : List Entry) :
    (axiomRecords entries).map (·.name) = entries.filterMap Entry.axiomName? :=
  names_recorded (fun _ entry => by cases entry <;> rfl) entries

theorem names_provedLemmas (blocks : List Passage) :
    (m.provedLemmas blocks).map (·.name) = blocks.map (Passage.name m.conjecture.name) := by
  conv_rhs => rw [← map_place (m.header.length + 2) blocks]
  simp only [provedLemmas, placed, List.map_map, Function.comp_def]

/-! ## Blocks -/

/-- What is on record after the header and some blocks. -/
def blockRecords (blocks : List Passage) : Records :=
  { m.headerRecords m.header with
    lemmas := .ofList ((declaredLemmas m.header ++ m.provedLemmas blocks).map fun l => (l.name, l))
    proofs := .ofList ((m.proofBlocks blocks).map fun b => (b.name, b))
    used := firstMentions (blocks.flatMap Passage.references) }

theorem blockRecords_append_singleton (blocks : List Passage) (p : Passage) :
    m.blockRecords (blocks ++ [p]) = p.record m.conjecture.name
      (m.header.length + 2 + (blocks.flatMap Passage.lines).length) (m.blockRecords blocks) := by
  simp only [blockRecords, provedLemmas, proofBlocks, placed, place_append_singleton,
    List.map_append, List.map_singleton, ← List.append_assoc, Registry.ofList_append_singleton,
    List.flatMap_append, List.flatMap_singleton, firstMentions, List.foldl_append, Passage.record]

/-- The names of the declared lemmas and of what some blocks prove. -/
def lemmaNames (blocks : List Passage) : List Text :=
  m.header.filterMap Entry.lemmaName? ++ blocks.map (Passage.name m.conjecture.name)

theorem nodup_lemmaNames {blocks : List Passage} (start : blocks <+: m.blocks) :
    (m.lemmaNames blocks).Nodup := by
  obtain ⟨later, split⟩ := start
  have distinct := (List.nodup_cons.mp m.distinct).2
  rw [← split, List.map_append, ← List.append_assoc] at distinct
  exact distinct.of_append_left

theorem keys_lemmas (blocks : List Passage) :
    (declaredLemmas m.header ++ m.provedLemmas blocks).map (·.name) = m.lemmaNames blocks := by
  rw [List.map_append, names_declaredLemmas, m.names_provedLemmas, lemmaNames]

/-- What is on record about blocks that the transcript begins with. -/
theorem entries_blockRecords {blocks : List Passage} (start : blocks <+: m.blocks) :
    (m.blockRecords blocks).lemmas.entries =
        (declaredLemmas m.header ++ m.provedLemmas blocks).map (fun l => (l.name, l)) ∧
      (m.blockRecords blocks).proofs.entries =
        (m.proofBlocks blocks).map fun b => (b.name, b) := by
  have distinct := m.nodup_lemmaNames start
  have keys : (m.proofBlocks blocks).map (·.name) = blocks.map (Passage.name m.conjecture.name) := by
    conv_rhs => rw [← map_place (m.header.length + 2) blocks]
    simp only [proofBlocks, placed, List.map_map, Function.comp_def]
  constructor
  · refine Registry.entries_ofList ?_
    rw [List.map_map]
    exact m.keys_lemmas blocks ▸ distinct
  · refine Registry.entries_ofList ?_
    rw [List.map_map]
    exact keys ▸ distinct.of_append_right

theorem declaredIn_header (role : Role) :
    m.declaredIn role m.header = some (m.declaration role) := by
  have among : .formula role ∈ m.header := by
    rw [← List.count_pos_iff, m.once role]
    exact Nat.one_pos
  rw [declaredIn, if_pos among]
  rfl

theorem lower_name_ne (p : Passage) :
    lower (p.name m.conjecture.name) ≠ Dependency.hypothesisToken := by
  obtain ⟨number, equation, start, steps⟩ := p
  cases number with
  | some n =>
      intro same
      exact absurd (List.cons.inj same).1 (by decide)
  | none => exact m.conjectureName

/-- A further block proves something new, and not the hypothesis. -/
theorem new_of_prefix {blocks : List Passage} {p : Passage} (start : blocks ++ [p] <+: m.blocks) :
    (m.blockRecords blocks).isHypothesisName (p.name m.conjecture.name) = false ∧
      (m.blockRecords blocks).lemmas.contains (p.name m.conjecture.name) = false := by
  constructor
  · have among : p.name m.conjecture.name ∈ m.header.filterMap Entry.lemmaName? ++
        m.blocks.map (Passage.name m.conjecture.name) :=
      List.mem_append_right _ (List.mem_map_of_mem (start.subset (by simp)))
    have other : m.hypothesis.name ≠ p.name m.conjecture.name := by
      intro same
      exact (List.nodup_cons.mp m.distinct).1 (same ▸ among)
    have declared : (m.blockRecords blocks).hypothesis = some (m.declaration .hypothesis) :=
      m.declaredIn_header .hypothesis
    have otherName : ((m.declaration .hypothesis).name == p.name m.conjecture.name) = false :=
      beq_eq_false_iff_ne.mpr other
    simp only [Records.isHypothesisName, declared, Option.any_some, otherName, Bool.or_false]
    exact beq_eq_false_iff_ne.mpr (m.lower_name_ne p)
  · have distinct := m.nodup_lemmaNames start
    rw [lemmaNames, List.map_append, List.map_singleton, ← List.append_assoc] at distinct
    have notAmong : p.name m.conjecture.name ∉ m.lemmaNames blocks := fun mem =>
      (List.nodup_append.mp distinct).2.2 _ mem _ (List.mem_singleton_self _) rfl
    rw [Bool.eq_false_iff, ne_eq, Registry.contains_iff, Registry.keys,
      (m.entries_blockRecords ((List.prefix_append blocks [p]).trans start)).1, List.map_map]
    exact m.keys_lemmas blocks ▸ notAmong

/-- The scanner after the header, the marker and some blocks. -/
theorem after_blocks {blocks : List Passage} (start : blocks <+: m.blocks) :
    Scanner.after (m.header.map m.entryLine ++ Event.proofMarker :: blocks.flatMap Passage.lines) =
      .ok { Scanner.initial with phase := .proofs, records := m.blockRecords blocks } := by
  induction blocks using List.reverseRecOn with
  | nil =>
      have header := m.after_entries (List.prefix_refl m.header)
      have nothing : m.blockRecords [] = m.headerRecords m.header := by
        simp only [blockRecords, provedLemmas, proofBlocks, placed, Passage.place, List.map_nil,
          List.append_nil]
        rfl
      rw [nothing]
      exact Scanner.feedAll_append_singleton.mpr ⟨_, header, rfl⟩
  | append_singleton blocks p ih =>
      have earlier := ih ((List.prefix_append blocks [p]).trans start)
      obtain ⟨notHypothesis, new⟩ := m.new_of_prefix start
      have declared : (m.blockRecords blocks).conjecture = some (m.declaration .conjecture) :=
        m.declaredIn_header .conjecture
      let reached : Scanner :=
        { Scanner.initial with phase := .proofs, records := m.blockRecords blocks }
      have block := p.feedAll_lines (s := reached) rfl rfl declared notHypothesis new
        (m.header.length + 2 + (blocks.flatMap Passage.lines).length)
      have place : 1 + (m.header.map m.entryLine ++
          Event.proofMarker :: blocks.flatMap Passage.lines).length =
            m.header.length + 2 + (blocks.flatMap Passage.lines).length := by
        simp only [List.length_append, List.length_map, List.length_cons]
        omega
      rw [List.flatMap_append, List.flatMap_singleton, ← List.cons_append, ← List.append_assoc,
        Scanner.after, Scanner.feedAll_append earlier, place, m.blockRecords_append_singleton]
      exact block

/-- What a transcript was printed from is on record, and nothing else. -/
structure IsRecordedIn (r : Records) : Prop where
  hypothesis : r.hypothesis = some (m.declaration .hypothesis)
  conjecture : r.conjecture = some (m.declaration .conjecture)
  axioms : r.axioms.entries = (axiomRecords m.header).map fun a => (a.name, a)
  lemmas : r.lemmas.entries =
    (declaredLemmas m.header ++ m.provedLemmas m.blocks).map fun l => (l.name, l)
  proofs : r.proofs.entries = (m.proofBlocks m.blocks).map fun b => (b.name, b)
  used : r.used = firstMentions (m.blocks.flatMap Passage.references)

/-- A well-formed transcript is read back: its formulas under their names and roles, its axioms,
    lemmas and proofs in their order and with the numbers of their lines, and the dependencies of
    each lemma. -/
theorem ofTranscript_text : ∃ r, Records.ofTranscript m.text = .ok r ∧ m.IsRecordedIn r ∧
    ∀ role, Expression.ofFormula (m.declaration role).formula =
      .ok (m.formula role).equation.expression := by
  obtain ⟨lemmas, proofs⟩ := m.entries_blockRecords (List.prefix_refl m.blocks)
  have after := m.after_blocks (List.prefix_refl m.blocks)
  refine ⟨m.blockRecords m.blocks, ?_, ?_, fun role => (m.formula role).ofFormula_text⟩
  · rw [Scanner.after] at after
    rw [Records.ofTranscript, m.lines_text, lines, after]
    rfl
  · have names : ((axiomRecords m.header).map fun a => (a.name, a)).map (·.1) =
        m.header.filterMap Entry.axiomName? := by
      rw [List.map_map, ← names_axiomRecords]
      rfl
    have axioms := Registry.entries_ofList (names ▸ m.axiomsDistinct)
    exact ⟨m.declaredIn_header .hypothesis, m.declaredIn_header .conjecture, axioms, lemmas, proofs,
      rfl⟩

/-! ## A transcript with every kind of line -/

def one : Digits := ⟨lit "1", by decide, List.all_eq_true.mp (by decide)⟩

def two : Digits := ⟨lit "2", by decide, List.all_eq_true.mp (by decide)⟩

def projected : Equation :=
  ⟨.op (.var (lit "X")) (.var (lit "Y")), .var (lit "X"), by decide, by decide⟩

def idempotent : Equation :=
  ⟨.op (.var (lit "X")) (.var (lit "X")), .var (lit "X"), by decide, by decide⟩

/-- A projection is idempotent. -/
def projection : Manuscript where
  hypothesis :=
    ⟨lit "a1", lit "X, Y", projected, by decide, by decide, by decide, by decide, by decide⟩
  conjecture :=
    ⟨lit "goal", lit "X", idempotent, by decide, by decide, by decide, by decide, by decide⟩
  header :=
    [ .formula .conjecture,
      .formula .hypothesis,
      .inlineAxiom one ⟨lit "a1", by decide⟩ projected,
      .declaredLemma ⟨lit "single_lemma_1", lit "single_lemma_", by decide, one, one.2.1, one.2.2,
        rfl⟩ idempotent [⟨lit "a1", by decide⟩, ⟨lit "Lemma_2", by decide⟩] ]
  blocks :=
    [ { number := some ⟨2, by decide⟩
        equation := projected
        start := ⟨.op (.var (lit "X")) (.var (lit "Y")), by decide, nofun⟩
        steps := [(.byAxiom one ⟨lit "a1", by decide⟩,
          ⟨.var (lit "X"), by decide, by rintro _ ⟨⟩; decide⟩)] },
      { number := none
        equation := idempotent
        start := ⟨.op (.var (lit "X")) (.var (lit "X")), by decide, nofun⟩
        steps := [(.byLemma two,
          ⟨.var (lit "X"), by decide, by rintro _ ⟨⟩; decide⟩)] } ]
  once := fun role => by cases role <;> decide
  axiomsDistinct := by decide
  distinct := by decide
  conjectureName := by decide

theorem ofTranscript_text_projection : projection.text = joinLines
    [ lit "fof(goal, conjecture, ! [X] : (op(X,X) = X)).",
      lit "fof(a1, axiom, ! [X, Y] : (op(X,Y) = X)).",
      lit "Axiom 1 (a1): op(X,Y) = X.",
      lit "% single_lemma_1: op(X,X) = X | deps: a1, Lemma_2",
      lit "The conjecture is true! Here is a proof",
      lit "Lemma 2: op(X,Y) = X.",
      lit "Proof:",
      lit "op(X,Y)",
      lit "= \x7b by axiom 1 (a1) \x7d",
      lit "X",
      lit "RESULT",
      lit "Goal 1: op(X,X) = X.",
      lit "Proof:",
      lit "op(X,X)",
      lit "= \x7b by lemma 2 \x7d",
      lit "X",
      lit "RESULT" ] ∧
    ∃ r, Records.ofTranscript projection.text = .ok r ∧
      r.lemmas.entries.map (fun entry =>
        (entry.1, entry.2.dependencies.map (·.name), entry.2.line)) =
        [(lit "single_lemma_1", [lit "a1", lit "Lemma_2"], 4), (lit "Lemma_2", [lit "a1"], 6),
          (lit "goal", [lit "Lemma_2"], 12)] ∧
      r.proofs.keys = [lit "Lemma_2", lit "goal"] ∧ r.used = [lit "a1"] := by
  refine ⟨by decide +kernel, ?_⟩
  obtain ⟨r, scanned, recorded, -⟩ := projection.ofTranscript_text
  refine ⟨r, scanned, ?_, ?_, ?_⟩
  · rw [recorded.lemmas]
    decide +kernel
  · rw [Registry.keys, recorded.proofs]
    decide +kernel
  · rw [recorded.used]
    decide +kernel

end Manuscript

end MagmaTrace
