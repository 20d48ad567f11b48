import MagmaTrace.Proofs.Reasons

/-! # Blocks

The heading of a block opens it, each line after it is a line of its proof, and the result line
closes it. Then its statement, its proof and what it depends on are on record.
-/

namespace MagmaTrace

open Text

namespace Event

/-- A heading is read, with its statement up to the end of the line. -/
theorem heading?_printed (keyword : Keyword) {digits : Text} (nonempty : digits ≠ [])
    (all : ∀ u ∈ digits, isDigit u = true) (e : Equation) :
    heading? (keyword.word ++ (lit " " ++ (digits ++ (lit ": " ++ (e.text ++ lit "."))))) =
      some ⟨keyword, .ofDigits digits, none, e.text ++ lit "."⟩ := by
  let statement : Text := e.text ++ lit "."
  have wide : lit " " ≠ [] := by decide
  have period : IsTrimmed (lit ".") := .of_isSolid (by decide) (by decide)
  have trimmed : IsTrimmed statement := e.isTrimmed_text.around [] period
  have begins (rest : Text) : ((strip? Keyword.goal.word (keyword.word ++ rest)).map
      (Keyword.goal, ·)).or ((strip? Keyword.auxiliary.word (keyword.word ++ rest)).map
        (Keyword.auxiliary, ·)) = some (keyword, rest) := by
    cases keyword with
    | goal => rw [strip?_eq_some.mpr rfl, Option.map_some, Option.some_or]
    | auxiliary =>
        have notGoal : strip? Keyword.goal.word (Keyword.auxiliary.word ++ rest) = none := rfl
        rw [notGoal, strip?_eq_some.mpr rfl, Option.map_none, Option.none_or, Option.map_some]
  have stop : ∀ u ∈ (lit ": " ++ statement).head?, isDigit u = false :=
    forall_mem_head?_cons (by decide) _
  obtain ⟨spaced, counted⟩ := read_number wide isBlank_space nonempty all stop
  have unnamed : parenthesized? (skipBlanks (lit ": " ++ statement)) = none := rfl
  have colon : strip? (lit ":") (skipBlanks (lit ": " ++ statement)) =
      some (lit " " ++ statement) := strip?_eq_some.mpr rfl
  have rest : restOfLine? (lit " " ++ statement) = some statement :=
    restOfLine?_append isBlank_space trimmed.first
      (isUnbroken_append.mpr ⟨e.isUnbroken_text, by decide⟩)
  simp only [heading?, begins, spaced, counted, unnamed, colon, rest, trimmed.trim_eq,
    Option.bind_eq_bind, Option.bind_some, Option.map_none, Option.pure_def, statement]

theorem heading?_eq_none {line : Text}
    (other : ∀ keyword : Keyword, startsWith keyword.word line = false) : heading? line = none := by
  have noKeyword (keyword : Keyword) : strip? keyword.word line = none :=
    Option.isNone_iff_eq_none.mp (Option.isSome_eq_false_iff.mp (other keyword))
  simp only [heading?, noKeyword, Option.map_none, Option.or_none, Option.bind_eq_bind,
    Option.bind_none]

/-- The words that end the proof of an open block. -/
def endingWords : List Text := [Keyword.goal.word, Keyword.auxiliary.word, resultMark]

end Event

namespace Phase

open Event

/-- A line of an open block goes on with its proof unless it begins in one of a few ways. -/
theorem stepInside_block {line : Text} (nonempty : line ≠ [])
    (goesOn : endingWords.any (startsWith · line) = false) :
    block.stepInside line = (block, [.proofLine line (Dependency.references line)]) := by
  simp only [endingWords, List.any_cons, List.any_nil, Bool.or_false,
    Bool.or_eq_false_iff] at goesOn
  obtain ⟨notGoal, notAuxiliary, notResult⟩ := goesOn
  have noHeading : heading? line = none := heading?_eq_none fun keyword => by
    cases keyword
    · exact notGoal
    · exact notAuxiliary
  have isLine : isProofLine line = true := by
    simp only [isProofLine, notGoal, notAuxiliary, bne_iff_ne.mpr nonempty, Bool.not_false,
      Bool.and_true]
  simp only [stepInside, noHeading, notResult, isLine, Bool.false_eq_true, if_false, if_true]

/-- What starts with a text that has white space has white space. -/
theorem startsWith_of_isSolid {mark line : Text} (gap : ¬ IsSolid mark) (solid : IsSolid line) :
    startsWith mark line = false := by
  rw [startsWith, Option.isSome_eq_false_iff, Option.isNone_iff_eq_none,
    Option.eq_none_iff_forall_ne_some]
  intro rest found
  rw [strip?_eq_some.mp found] at solid
  exact gap fun u mem => solid u (List.mem_append_left rest mem)

theorem skipSomeBlanks?_of_isSolid {text : Text} (solid : IsSolid text) :
    skipSomeBlanks? text = none := by
  have noRun : run? isBlank text = none := by
    rw [Option.eq_none_iff_forall_ne_some]
    rintro ⟨gap, rest⟩ found
    obtain ⟨rfl, wide, blank, -⟩ := run?_eq_some.mp found
    obtain ⟨u, mem⟩ := List.exists_mem_of_ne_nil gap wide
    exact absurd (solid u (List.mem_append_left rest mem)) (by simp [blank u mem])
  rw [skipSomeBlanks?, noRun, Option.map_none]

/-- Whatever can be said outside a block has white space in it. -/
theorem step_solid (phase : Phase) {line : Text} (solid : IsSolid line) (nonempty : line ≠ []) :
    phase.step line = phase.stepInside line := by
  have noAxiom : axiomLine? line = none := by
    rcases stripped : strip? (lit "Axiom") line with _ | rest
    · simp only [axiomLine?, stripped, Option.bind_eq_bind, Option.bind_none]
    · have noGap : skipSomeBlanks? rest = none := by
        rw [strip?_eq_some.mp stripped] at solid
        exact skipSomeBlanks?_of_isSolid fun u mem => solid u (List.mem_append_right _ mem)
      simp only [axiomLine?, stripped, noGap, Option.bind_eq_bind, Option.bind_some,
        Option.bind_none]
  have noMarker : startsWith proofMarker line = false := startsWith_of_isSolid (by decide) solid
  have noLemma : ∀ mark ∈ lemmaMarks, startsWith mark line = false := by
    intro mark mem
    have gap : ∀ mark ∈ lemmaMarks, ¬ IsSolid mark := by decide
    exact startsWith_of_isSolid (gap mark mem) solid
  have trimmed : trim line = line := (IsTrimmed.of_isSolid solid nonempty).trim_eq
  rw [← trimmed] at noAxiom noMarker noLemma
  rw [phase.step_undeclared noAxiom noMarker noLemma, trimmed]

end Phase

namespace Manuscript

open Event

/-- A term does not end a proof. -/
theorem goesOn_tptp (t : ProofTerm) : endingWords.any (startsWith · t.1.tptp) = false := by
  obtain ⟨t, -, other⟩ := t
  cases t with
  | var name =>
      rw [List.any_eq_false]
      intro word mem
      exact Bool.not_eq_true _ ▸ other name rfl word mem
  | op left right =>
      rw [Term.tptp_op]
      rfl

theorem isTrimmed_reason (r : Reason) : IsTrimmed r.line := by
  have first : IsTrimmed (lit "=") := .of_isSolid (by decide) (by decide)
  have last : IsTrimmed (lit "\x7d") := .of_isSolid (by decide) (by decide)
  have around (middle : Text) : IsTrimmed (lit "=" ++ (middle ++ lit "\x7d")) :=
    first.around middle last
  cases r with
  | byAxiom number name =>
      have parts : Reason.line (.byAxiom number name) = lit "=" ++
          ((lit " \x7b by axiom " ++ (number ++ (lit " (" ++ (name ++ lit ") ")))) ++ lit "\x7d") := by
        have start : lit "= \x7b by axiom " = lit "=" ++ lit " \x7b by axiom " := rfl
        have ends : lit ") \x7d" = lit ") " ++ lit "\x7d" := rfl
        simp only [Reason.line, start, ends, List.append_assoc]
      rw [parts]
      exact around _
  | byLemma number =>
      have parts : Reason.line (.byLemma number) = lit "=" ++
          ((lit " \x7b by lemma " ++ (number ++ lit " ")) ++ lit "\x7d") := by
        have start : lit "= \x7b by lemma " = lit "=" ++ lit " \x7b by lemma " := rfl
        have ends : lit " \x7d" = lit " " ++ lit "\x7d" := rfl
        simp only [Reason.line, start, ends, List.append_assoc]
      rw [parts]
      exact around _

/-- The lines between the heading and the result are a label, terms and reasons. -/
theorem Passage.of_mem_body {P : Text → Prop} (p : Passage) (label : P (lit "Proof:"))
    (term : ∀ t : ProofTerm, P t.1.tptp) (reason : ∀ r : Reason, P r.line) :
    ∀ line ∈ p.body, P line := by
  intro line mem
  rcases List.mem_cons.mp mem with rfl | mem
  · exact label
  rcases List.mem_cons.mp mem with rfl | mem
  · exact term p.start
  · obtain ⟨step, -, mem⟩ := List.mem_flatMap.mp mem
    rcases List.mem_pair.mp mem with rfl | rfl
    · exact reason step.1
    · exact term step.2

/-- Each of them is a line of the proof. -/
theorem Passage.step_body (p : Passage) : ∀ line ∈ p.body, Phase.block.step line =
    (.block, [.proofLine line (Dependency.references line)]) := by
  refine p.of_mem_body rfl (fun t => ?_) fun r => ?_
  · obtain ⟨u, more, begins, -⟩ := Term.begins_tptp t.2.1
    have nonempty : t.1.tptp ≠ [] := begins ▸ List.cons_ne_nil u more
    rw [Phase.block.step_solid (Term.isSolid_tptp t.2.1) nonempty]
    exact Phase.stepInside_block nonempty (goesOn_tptp t)
  · have trimmed := isTrimmed_reason r
    have plain : ∀ u ∈ (trim r.line).head?, u ≠ 'A' ∧ u ≠ 'T' ∧ u ≠ '%' := by
      rw [trimmed.trim_eq]
      cases r with
      | byAxiom => exact forall_mem_head?_cons (by decide) _
      | byLemma => exact forall_mem_head?_cons (by decide) _
    have goesOn : endingWords.any (startsWith · r.line) = false := by
      cases r with
      | byAxiom => rfl
      | byLemma => rfl
    rw [Phase.block.step_plain plain, trimmed.trim_eq]
    exact Phase.stepInside_block trimmed.nonempty goesOn

/-- Of the lines of a proof only the reasons cite anything. -/
theorem Passage.references_body (p : Passage) :
    p.body.flatMap Dependency.references = p.references := by
  have heading : Dependency.references (lit "Proof:") = [] := rfl
  have step (s : Reason × ProofTerm) :
      [s.1.line, s.2.1.tptp].flatMap Dependency.references = s.1.references := by
    simp only [List.flatMap_cons, List.flatMap_nil, Reason.references_line,
      (Term.cites_nothing s.2.2.1).1, List.append_nil]
  simp only [body, List.flatMap_cons, heading, (Term.cites_nothing p.start.2.1).1, List.nil_append,
    List.flatMap_assoc, step, references]

theorem Passage.dependencies_body (p : Passage) : Dependency.ofLines p.body = p.dependencies := by
  let found (line : Text) : List Text := Dependency.references line ++ Dependency.mentions line
  have heading : found (lit "Proof:") = [] := rfl
  have term (t : ProofTerm) : found t.1.tptp = [] := by
    obtain ⟨none, none'⟩ := Term.cites_nothing t.2.1
    simp only [found, none, none', List.append_nil]
  have step (s : Reason × ProofTerm) : [s.1.line, s.2.1.tptp].flatMap found = s.1.cited := by
    have reason : found s.1.line = s.1.cited := s.1.cited_line
    simp only [List.flatMap_cons, List.flatMap_nil, reason, term, List.append_nil]
  have all : p.body.flatMap found = p.steps.flatMap fun step => step.1.cited := by
    simp only [body, List.flatMap_cons, heading, term, List.nil_append, List.flatMap_assoc, step]
  simp only [Dependency.ofLines, Dependency.cited, dependencies, ← all, found]

end Manuscript

/-! ## The scanner on a block -/

/-- A proof gives the lemma that was recorded at its heading its dependencies. -/
theorem Records.addProof_addLemma {r : Records} {opened : LemmaRecord} {block : ProofBlock}
    (same : block.name = opened.name) (some : block.lines ≠ []) {references : List Text} :
    ((r.addLemma opened).addReferences references).addProof block =
      { r with
        lemmas := r.lemmas.insert opened.name { opened with dependencies := block.dependencies }
        proofs := r.proofs.insert opened.name block
        used := references.foldl addNew r.used } := by
  have found : (r.lemmas.insert opened.name opened).get? opened.name = Option.some opened :=
    Registry.get?_insert_self ..
  simp only [Records.addProof, some, if_false, Records.addReferences, Records.addLemma, same, found,
    Registry.insert_insert_self]

namespace Scanner

variable {s : Scanner} {line : Nat}

/-- Lines of a proof are added to the open block, and what they refer to is recorded. -/
theorem feedAll_proofLines {block : ProofBlock} (inside : s.phase = .block)
    (opened : s.current = some block) {texts : List Text} (isLine : ∀ text ∈ texts,
      Phase.block.step text = (.block, [.proofLine text (Dependency.references text)])) :
    s.feedAll line texts = .ok { s with
      current := some { block with
        lines := block.lines ++ (texts.zipIdx line).map fun entry => ⟨entry.1, entry.2⟩ }
      records := s.records.addReferences (texts.flatMap Dependency.references) } := by
  induction texts generalizing s block line with
  | nil =>
      obtain ⟨phase, current, collector, records⟩ := s
      cases inside
      cases opened
      simp [feedAll, Records.addReferences]
  | cons text rest ih =>
      obtain ⟨phase, current, collector, records⟩ := s
      cases inside
      cases opened
      obtain ⟨here, later⟩ := List.forall_mem_cons.mp isLine
      have fed : feed ⟨.block, some block, collector, records⟩ text line =
          (⟨.block, some { block with lines := block.lines ++ [⟨text, line⟩] }, collector,
            records.addReferences (Dependency.references text)⟩, none) := by
        simp only [feed, here, applyAll, apply, Option.map_some]
      rw [feedAll_cons fed, ih rfl rfl later]
      simp only [Records.addReferences, List.flatMap_cons, List.foldl_append, List.zipIdx_cons,
        List.map_cons, List.append_assoc, List.singleton_append]

end Scanner

namespace Manuscript

open Event

def Passage.keyword (p : Passage) : Keyword :=
  match p.number with
  | some _ => .auxiliary
  | none => .goal

def Passage.digits (p : Passage) : Text :=
  match p.number with
  | some n => decimal n
  | none => lit "1"

theorem Passage.isNumber_digits (p : Passage) :
    p.digits ≠ [] ∧ ∀ u ∈ p.digits, isDigit u = true := by
  unfold digits
  cases p.number with
  | some n => exact ⟨decimal_ne_nil n, isDigit_of_mem_decimal n⟩
  | none => exact ⟨by decide, List.all_eq_true.mp (by decide)⟩

/-- The heading of a block as it is read. -/
def Passage.read (p : Passage) : Heading :=
  ⟨p.keyword, .ofDigits p.digits, none, p.equation.text ++ lit "."⟩

theorem Passage.heading_eq (p : Passage) : p.heading = p.keyword.word ++ (lit " " ++ (p.digits ++
    (lit ": " ++ (p.equation.text ++ lit ".")))) := by
  obtain ⟨number, equation, start, steps⟩ := p
  cases number with
  | some n =>
      have word : lit "Lemma " = Keyword.auxiliary.word ++ lit " " := rfl
      simp only [heading, keyword, digits, word, List.append_assoc]
  | none =>
      have word : lit "Goal 1" = Keyword.goal.word ++ (lit " " ++ lit "1") := rfl
      simp only [heading, keyword, digits, word, List.append_assoc]

theorem Passage.isTrimmed_heading (p : Passage) : IsTrimmed p.heading := by
  have word : IsTrimmed p.keyword.word := by
    cases p.keyword with
    | goal => exact .of_isSolid (by decide) (by decide)
    | auxiliary => exact .of_isSolid (by decide) (by decide)
  have period : IsTrimmed (lit ".") := .of_isSolid (by decide) (by decide)
  have whole := word.around (lit " " ++ (p.digits ++ (lit ": " ++ p.equation.text))) period
  rw [p.heading_eq]
  simpa only [List.append_assoc] using whole

theorem Passage.step_heading (p : Passage) :
    Phase.proofs.step p.heading = (.block, [.blockOpened p.read]) := by
  have plain : ∀ u ∈ (trim p.heading).head?, u ≠ 'A' ∧ u ≠ 'T' ∧ u ≠ '%' := by
    rw [p.isTrimmed_heading.trim_eq, p.heading_eq]
    cases p.keyword with
    | goal => exact forall_mem_head?_cons (by decide) _
    | auxiliary => exact forall_mem_head?_cons (by decide) _
  have read : heading? p.heading = some p.read := by
    rw [p.heading_eq]
    exact heading?_printed p.keyword p.isNumber_digits.1 p.isNumber_digits.2 p.equation
  rw [Phase.proofs.step_plain plain, p.isTrimmed_heading.trim_eq]
  simp only [Phase.stepInside, read]

theorem Passage.blockName_read (p : Passage) {r : Records} {d : Declaration}
    (declared : r.conjecture = some d) : Scanner.blockName r p.read = p.name d.name := by
  obtain ⟨number, equation, start, steps⟩ := p
  cases number with
  | some n =>
      obtain ⟨n, small⟩ := n
      have same : (Numeral.ofDigits (decimal n)).text = decimal n := by
        rw [Numeral.ofDigits, ofDigits_decimal, Numeral.ofNat, if_pos small, Numeral.text,
          if_pos small]
      simp only [Scanner.blockName, Passage.read, Passage.keyword, Passage.digits, Passage.name,
        Dependency.lemmaName, same]
  | none => simp only [Scanner.blockName, Passage.read, Passage.keyword, declared, Passage.name]

/-- What a block adds to the records. -/
def Passage.record (conjecture : Text) (line : Nat) (r : Records) (p : Passage) : Records :=
  { r with
    lemmas := r.lemmas.insert (p.name conjecture)
      ⟨p.name conjecture, p.equation.expression, p.dependencies, line⟩
    proofs := r.proofs.insert (p.name conjecture) ⟨p.name conjecture, p.proofLines line⟩
    used := p.references.foldl addNew r.used }

/-- A block for something new is recorded as a whole. -/
theorem Passage.feedAll_lines (p : Passage) {s : Scanner} {d : Declaration}
    (outside : s.phase = .proofs) (idle : s.current = none) (declared : s.records.conjecture = some d)
    (notHypothesis : s.records.isHypothesisName (p.name d.name) = false)
    (new : s.records.lemmas.contains (p.name d.name) = false) (line : Nat) :
    s.feedAll line p.lines =
      .ok { s with records := p.record d.name line s.records } := by
  obtain ⟨phase, current, collector, r⟩ := s
  cases outside
  cases idle
  let name : Text := p.name d.name
  let opened : LemmaRecord := ⟨name, p.equation.expression, [], line⟩
  have named : Scanner.blockName r p.read = name := p.blockName_read declared
  have read : Expression.ofFormula p.read.statement = .ok p.equation.expression :=
    p.equation.ofFormula_text (by decide) (List.all_eq_true.mp (by decide))
  have heading : Scanner.feed ⟨.proofs, none, collector, r⟩ p.heading line =
      (⟨.block, some ⟨name, []⟩, collector, r.addLemma opened⟩, none) := by
    simp only [Scanner.feed, p.step_heading, Scanner.applyAll, Scanner.apply, Scanner.openBlock,
      named, notHypothesis, new, Bool.or_self, Bool.false_eq_true, if_false, Scanner.readOn, read,
      Except.mapError, opened, name]
  let block : ProofBlock := ⟨name, p.proofLines line⟩
  have body : Scanner.feedAll ⟨.block, some ⟨name, []⟩, collector, r.addLemma opened⟩ (line + 1)
      p.body =
        .ok ⟨.block, some block, collector, (r.addLemma opened).addReferences p.references⟩ := by
    rw [Scanner.feedAll_proofLines rfl rfl p.step_body, p.references_body]
    rfl
  have closed : Phase.block.step resultMark = (.proofs, [.blockClosed]) := rfl
  have result : Scanner.feed ⟨.block, some block, collector,
      (r.addLemma opened).addReferences p.references⟩ resultMark (line + 1 + p.body.length) =
        (⟨.proofs, none, collector,
          ((r.addLemma opened).addReferences p.references).addProof block⟩, none) := by
    simp only [Scanner.feed, closed, Scanner.applyAll, Scanner.apply, Scanner.closeBlock]
  have some : block.lines ≠ [] := List.cons_ne_nil _ _
  have texts : block.lines.map (·.text) = p.body := by
    simp only [block, proofLines, List.map_map]
    exact List.zipIdx_map_fst ..
  have recorded : ((r.addLemma opened).addReferences p.references).addProof block =
      p.record d.name line r := by
    rw [Records.addProof_addLemma rfl some, ProofBlock.dependencies, texts, p.dependencies_body]
    rfl
  rw [Passage.lines, Scanner.feedAll_cons heading, Scanner.feedAll_append body,
    Scanner.feedAll_cons result, recorded]
  rfl

end Manuscript

end MagmaTrace
