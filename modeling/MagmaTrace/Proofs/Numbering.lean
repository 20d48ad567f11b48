import MagmaTrace.Proofs.Citation
import MagmaTrace.Proofs.Coherence
import MagmaTrace.Proofs.Digits
import MagmaTrace.Proofs.Discovery
import MagmaTrace.Proofs.Names

/-! # Lemmas cited by their numbers

A heading `Lemma 4` files its lemma under a name made from the number, unless it gives a name of
its own; a citation `by lemma 4` is looked up under a name made from its digits. So the citation
finds the heading's lemma when the heading gives no name and the digits are how the number is
written (`Naming.resolve_numbered`).
-/

namespace MagmaTrace

open Text

/-- A number below 2^53 is written by its digits, if they have no leading zero. -/
theorem Numeral.text_ofDigits {digits : Text} (h : IsPlain digits)
    (small : Text.ofDigits digits < Nat.pow 2 53) : (ofDigits digits).text = digits := by
  unfold ofDigits ofNat
  rw [if_pos small, text, if_pos small, decimal_ofDigits h]

theorem Text.skipSomeBlanks?_append {gap rest : Text} (wide : gap ≠ []) (blank : IsBlank gap)
    (first : ∀ u ∈ rest.head?, isBlank u = false) : skipSomeBlanks? (gap ++ rest) = some rest := by
  rw [skipSomeBlanks?, run?_eq_some.mpr ⟨rfl, wide, blank, first⟩]
  rfl

/-- White space is skipped up to a number, and the number is read whole. -/
theorem Text.read_number {gap digits rest : Text} (wide : gap ≠ []) (blank : IsBlank gap)
    (nonempty : digits ≠ []) (all : ∀ u ∈ digits, isDigit u = true)
    (stop : ∀ u ∈ rest.head?, isDigit u = false) :
    skipSomeBlanks? (gap ++ (digits ++ rest)) = some (digits ++ rest) ∧
      run? isDigit (digits ++ rest) = some (digits, rest) := by
  have solid : ∀ u ∈ (digits ++ rest).head?, isBlank u = false := by
    intro u first
    rw [List.head?_append, Option.or_of_isSome (List.isSome_head?.mpr nonempty)] at first
    exact isBlank_of_isDigit (all u (List.mem_of_mem_head? first))
  exact ⟨skipSomeBlanks?_append wide blank solid,
    run?_eq_some.mpr ⟨rfl, nonempty, all, stop⟩⟩

/-! ## Headings -/

namespace Event

/-- A line begins with the word for a lemma, white space, and a whole number of some digits. -/
def IsNumbered (digits line : Text) : Prop :=
  ∃ gap rest, line = Keyword.auxiliary.word ++ (gap ++ (digits ++ rest)) ∧
    gap ≠ [] ∧ IsBlank gap ∧ digits ≠ [] ∧ (∀ u ∈ digits, isDigit u = true) ∧
    ∀ u ∈ rest.head?, isDigit u = false

theorem IsNumbered.of_all {digits line : Text} (gap rest : Text)
    (parts : line = Keyword.auxiliary.word ++ (gap ++ (digits ++ rest)) ∧ gap ≠ [] ∧
      gap.all isBlank = true ∧ digits ≠ [] ∧ digits.all isDigit = true ∧
      rest.head?.all (!isDigit ·) = true) : IsNumbered digits line := by
  obtain ⟨split, wide, blank, nonempty, all, stop⟩ := parts
  refine ⟨gap, rest, split, wide, List.all_eq_true.mp blank, nonempty, List.all_eq_true.mp all, ?_⟩
  intro u first
  rw [Option.mem_def.mp first] at stop
  simpa using stop

theorem begins_of_heading? {line : Text} {heading : Heading} (h : heading? line = some heading) :
    ∃ rest, line = heading.keyword.word ++ rest := by
  unfold heading? at h
  simp only [Option.bind_eq_bind, Option.bind_eq_some_iff, Prod.exists, Option.or_eq_some_iff,
    Option.map_eq_some_iff, strip?_eq_some, Option.pure_def, Option.some.injEq] at h
  obtain ⟨keyword, rest, begins, _, _, _, _, _, _, _, _, _, rfl⟩ := h
  rcases begins with ⟨_, split, same⟩ | ⟨-, _, split, same⟩
  · cases same
    exact ⟨rest, split⟩
  · cases same
    exact ⟨rest, split⟩

theorem heading_of_isNumbered {digits line : Text} (numbered : IsNumbered digits line)
    {heading : Heading} (h : heading? line = some heading) :
    heading.keyword = .auxiliary ∧ heading.number = Numeral.ofDigits digits := by
  obtain ⟨gap, rest, rfl, wide, blank, nonempty, all, stop⟩ := numbered
  have notGoal : strip? Keyword.goal.word (Keyword.auxiliary.word ++ (gap ++ (digits ++ rest))) =
      none := rfl
  have isLemma : strip? Keyword.auxiliary.word
      (Keyword.auxiliary.word ++ (gap ++ (digits ++ rest))) = some (gap ++ (digits ++ rest)) :=
    strip?_eq_some.mpr rfl
  obtain ⟨spaced, counted⟩ := read_number wide blank nonempty all stop
  unfold heading? at h
  simp only [notGoal, isLemma, spaced, counted, Option.map_none, Option.none_or, Option.map_some,
    Option.bind_eq_bind, Option.bind_some, Option.bind_eq_some_iff, Option.pure_def,
    Option.some.injEq] at h
  obtain ⟨_, _, _, _, rfl⟩ := h
  exact ⟨rfl, rfl⟩

/-- Outside the header, a line with a heading opens a block. -/
theorem blockOpened_mem_step {phase : Phase} {rawLine : Text} {heading : Heading}
    (inside : phase ≠ .header) (h : heading? (trim rawLine) = some heading) :
    .blockOpened heading ∈ (phase.step rawLine).2 := by
  obtain ⟨rest, begins⟩ := begins_of_heading? h
  -- The word of a heading begins no other line.
  have undeclared : axiomLine? (trim rawLine) = none ∧
      startsWith proofMarker (trim rawLine) = false ∧
      lemmaMarks.any (startsWith · (trim rawLine)) = false := by
    rw [begins]
    cases heading.keyword with
    | goal => exact ⟨rfl, rfl, rfl⟩
    | auxiliary => exact ⟨rfl, rfl, rfl⟩
  obtain ⟨noAxiom, noMarker, noMark⟩ := undeclared
  simp only [Phase.step, noAxiom, noMarker, noMark, Bool.false_eq_true, if_false]
  cases phase with
  | header => exact absurd rfl inside
  | proofs => simp [Phase.stepInside, h]
  | block => simp [Phase.stepInside, h]

end Event

namespace Scanner

open Event

theorem mem_keys_of_blockOpened {s s' : Scanner} {line : Nat} {heading : Heading}
    (taken : Takes line s (.blockOpened heading) s')
    (other : s.records.isHypothesisName (blockName s.records heading) = false) :
    blockName s.records heading ∈ s'.records.lemmas.keys := by
  cases taken with
  | knownBlockOpened known =>
      rcases known with hypothesis | onRecord
      · exact absurd (hypothesis.symm.trans other) (by decide)
      · exact Registry.contains_iff.mp onRecord
  | newBlockOpened => exact Registry.mem_keys_iff.mpr ⟨_, Registry.get?_insert_self ..⟩

theorem mem_keys_of_heading {s s' : Scanner} {line : Nat} {rawLine : Text} {heading : Heading}
    (inside : s.phase ≠ .header) (h : heading? (trim rawLine) = some heading)
    (other : s.records.isHypothesisName (blockName s.records heading) = false)
    (fed : s.feed rawLine line = (s', none)) :
    blockName s.records heading ∈ s'.records.lemmas.keys := by
  have opened := blockOpened_mem_step inside h
  rcases feed_split fed with ⟨closing, -⟩ | ⟨event, mem, notClosing, taken⟩
  · cases closing _ opened
  · obtain ⟨hypothesis, conjecture, -, -, -⟩ := s.frame_entering rawLine
    have same : blockName (s.entering rawLine).records heading = blockName s.records heading := by
      unfold blockName
      rw [conjecture]
    cases Phase.eq_of_mem_step mem opened notClosing nofun
    rw [← same] at other ⊢
    refine mem_keys_of_blockOpened taken ?_
    unfold Records.isHypothesisName at other ⊢
    rw [hypothesis]
    exact other

/-- A line of a transcript opens a block under a heading with some digits for a lemma, which is
    not the hypothesis. -/
inductive OpensAt (transcript : List Text) (place : Nat) (digits : Text) : Heading → Text → Prop where
  | intro {s : Scanner} {rawLine : Text} {heading : Heading}
      (reached : after (transcript.take place) = .ok s) (line : transcript[place]? = some rawLine)
      (inside : s.phase ≠ .header) (numbered : IsNumbered digits (trim rawLine))
      (reads : heading? (trim rawLine) = some heading)
      (other : s.records.isHypothesisName (blockName s.records heading) = false) :
      OpensAt transcript place digits heading (blockName s.records heading)

theorem OpensAt.digits {transcript : List Text} {place : Nat} {digits : Text} {heading : Heading}
    {filed : Text} (opens : OpensAt transcript place digits heading filed) :
    digits ≠ [] ∧ ∀ u ∈ digits, isDigit u = true := by
  cases opens with
  | intro _ _ _ numbered =>
      obtain ⟨_, _, _, _, _, nonempty, all, _⟩ := numbered
      exact ⟨nonempty, all⟩

theorem OpensAt.of_evaluated {transcript : List Text} {place : Nat} {digits : Text}
    {heading : Heading} {filed : Text} (rawLine : Text) (line : transcript[place]? = some rawLine)
    (numbered : IsNumbered digits (trim rawLine)) (reads : heading? (trim rawLine) = some heading)
    (evaluated : (after (transcript.take place)).toOption.map (fun s =>
      decide (s.phase ≠ .header ∧ blockName s.records heading = filed ∧
        s.records.isHypothesisName filed = false)) = some true) :
    OpensAt transcript place digits heading filed := by
  obtain ⟨s, reached, facts⟩ := Option.map_eq_some_iff.mp evaluated
  obtain ⟨inside, rfl, other⟩ := of_decide_eq_true facts
  exact .intro (toOption_eq_some_iff.mp reached) line inside numbered reads other

/-- The lemma of a heading is still on record after all lines. -/
theorem OpensAt.mem_keys {transcript : List Text} {place : Nat} {digits : Text} {heading : Heading}
    {filed : Text} (opens : OpensAt transcript place digits heading filed) {s : Scanner}
    (h : after transcript = .ok s) : filed ∈ s.records.lemmas.keys := by
  cases opens with
  | intro reached line inside numbered reads other =>
      obtain ⟨within, rfl⟩ := List.getElem?_eq_some_iff.mp line
      obtain ⟨next, upTo⟩ := after_take h (place + 1)
      have mine : transcript.take (place + 1) = transcript.take place ++ [transcript[place]] := by
        simp
      have soFar := upTo
      rw [mine] at soFar
      obtain ⟨before, same, fed⟩ := after_append_singleton.mp soFar
      cases Except.ok.inj (reached.symm.trans same)
      have filed := mem_keys_of_heading inside reads other fed
      have kept := lemmasAfter_take_le h within (Nat.le_refl transcript.length)
      rw [List.take_length, lemmasAfter_of_ok h, lemmasAfter_of_ok upTo] at kept
      exact kept.subset filed

/-- A heading files its lemma under the name that it gives, or without one under its number. -/
theorem OpensAt.filed {transcript : List Text} {place : Nat} {digits : Text} {heading : Heading}
    {filed : Text} (opens : OpensAt transcript place digits heading filed) :
    filed = heading.name.getD (Dependency.lemmaName (Numeral.ofDigits digits).text) := by
  cases opens with
  | @intro s rawLine heading reached line inside numbered reads other =>
      obtain ⟨keyword, number⟩ := heading_of_isNumbered numbered reads
      unfold blockName
      rw [keyword, number]
      cases heading.name with
      | none => rfl
      | some name => rfl

end Scanner

/-! ## Citations -/

theorem Dependency.token?_of_isDigit {u : CodeUnit} (h : isDigit u = true) (rest : Text) :
    token? (u :: rest) = none := by
  rcases found : token? (u :: rest) with _ | ⟨token, after⟩
  · rfl
  · obtain ⟨split, known⟩ := token?_sound found
    -- The first unit of a token is a letter.
    cases known with
    | hypothesis =>
        obtain ⟨rfl, -⟩ := List.cons.inj split
        exact absurd h (by decide)
    | numbered known =>
        rcases known with rfl | rfl
        · obtain ⟨rfl, -⟩ := List.cons.inj split
          exact absurd h (by decide)
        · obtain ⟨rfl, -⟩ := List.cons.inj split
          exact absurd h (by decide)

/-- The line that justifies a step by the lemma of a given number. -/
def CalcStep.numberLine (digits : Text) : Text :=
  lit "= \x7b by lemma " ++ (digits ++ lit " \x7d")

namespace CalcStep

theorem isJustification_numberLine {digits : Text} (all : ∀ u ∈ digits, isDigit u = true) :
    isJustification (numberLine digits) = true := by
  have oneLine : ∀ u ∈ lit "emma " ++ (digits ++ lit " \x7d"), (!isLineEnd u) = true := by
    intro u mem
    rcases List.mem_append.mp mem with word | mem
    · exact List.all_eq_true.mp (by decide : (lit "emma ").all (!isLineEnd ·) = true) u word
    · rcases List.mem_append.mp mem with digit | closing
      · rw [isLineEnd_of_isDigit (all u digit)]
        rfl
      · exact List.all_eq_true.mp (by decide : (lit " \x7d").all (!isLineEnd ·) = true) u closing
  have reason : isJustification (numberLine digits) =
      ((lit "emma " ++ (digits ++ lit " \x7d")).takeWhile fun u => !isLineEnd u).contains
        ('}' : CodeUnit) := rfl
  rw [reason, List.takeWhile_eq_self_iff.mpr oneLine, List.contains_iff_mem]
  have closing : ('}' : CodeUnit) ∈ lit " \x7d" := by decide
  exact List.mem_append_right _ (List.mem_append_right _ closing)

theorem citedToken?_numberLine {digits : Text} (nonempty : digits ≠ [])
    (all : ∀ u ∈ digits, isDigit u = true) :
    citedToken? (numberLine digits) = some (Dependency.lemmaName digits) := by
  have noToken : first? Dependency.token? (numberLine digits) = none := by
    have lead : first? Dependency.token? (numberLine digits) =
        first? Dependency.token? (digits ++ lit " \x7d") := rfl
    rw [lead, first?_append_of_none]
    · rfl
    · intro before rest split nonempty
      cases rest with
      | nil => exact absurd rfl nonempty
      | cons u rest =>
          exact Dependency.token?_of_isDigit (all u (by simp [split])) (rest ++ lit " \x7d")
  have lead : first? numberedLemma? (numberLine digits) =
      first? numberedLemma? (lit "lemma " ++ (digits ++ lit " \x7d")) := rfl
  have here : numberedLemma? (lit "lemma " ++ (digits ++ lit " \x7d")) =
      some (Dependency.lemmaName digits) := by
    have word : stripCaseless? (lit "lemma") (lit "lemma " ++ (digits ++ lit " \x7d")) =
        some (lit " " ++ (digits ++ lit " \x7d")) := rfl
    have stop : ∀ u ∈ (lit " \x7d").head?, isDigit u = false :=
      forall_mem_head?_cons (by decide) _
    have wide : lit " " ≠ [] := by decide
    obtain ⟨spaced, counted⟩ := read_number wide (by decide) nonempty all stop
    unfold numberedLemma?
    simp only [word, spaced, counted, Option.bind_eq_bind, Option.bind_some, Option.pure_def]
  unfold citedToken?
  rw [noToken, lead, first?_of_some here]
  rfl

theorem cites_numberLine {digits : Text} (nonempty : digits ≠ [])
    (all : ∀ u ∈ digits, isDigit u = true) :
    Dependency.Cites (Dependency.lemmaName digits) (numberLine digits) := by
  refine .inr ⟨digits, rfl, lit "= \x7b ", lit "by lemma ", lit " \x7d", ?_, rfl, nonempty, all, ?_⟩
  · simp only [numberLine]
    rfl
  · exact forall_mem_head?_cons (by decide) _

end CalcStep

theorem Dependency.kindOf_lemmaName {digits : Text} (nonempty : digits ≠ [])
    (all : ∀ u ∈ digits, isDigit u = true) : kindOf (lemmaName digits) = .mentioned := by
  have other : lemmaName digits ≠ hypothesisToken := by
    intro same
    cases (List.cons.inj same).1
  have noSingle : single? (lemmaName digits) = none := rfl
  have noHistory : history? (lemmaName digits) = none := rfl
  have number : numbered? (lemmaName []) (lemmaName digits) = some (lemmaName digits, []) :=
    numbered?_eq_some.mpr ⟨digits, rfl, by simp, nonempty, all, by simp⟩
  unfold kindOf
  rw [if_neg other, noSingle, noHistory, number]
  rfl

/-! ## What is rejected -/

namespace Naming

theorem mem_of_retainFrom_error {n n' : Naming} {axioms : Registry Text AxiomRecord} {rank : Nat}
    {tokens : List Text} {e : MissingDependency}
    (h : n.retainFrom axioms rank tokens = (n', .error e)) : e.token ∈ tokens := by
  induction tokens generalizing n rank with
  | nil => cases h
  | cons token rest ih =>
      unfold retainFrom at h
      split at h
      · cases h
        exact List.mem_cons_self
      · dsimp only at h
        split at h
        · next later =>
            cases h
            exact List.mem_cons_of_mem _ (ih later)
        · cases h

theorem get?_of_resolve_error {n : Naming} {token : Text} {context : Option Text}
    {e : MissingDependency} (h : n.resolve token context = .error e) :
    n.lemmas.get? e.token = none := by
  unfold resolve at h
  split at h
  · cases h
  · next unknown =>
      split at h
      · cases h
      · split_ifs at h
        cases h
        exact unknown

theorem token_of_resolve_error {n : Naming} {token : Text} {context : Option Text}
    {e : MissingDependency} (h : n.resolve token context = .error e) : e.token = token := by
  unfold resolve at h
  split at h
  · cases h
  · split at h
    · cases h
    · split_ifs at h
      cases h
      rfl

/-- A dependency is missing only if no lemma goes by its name. -/
theorem of_resolveDependency_error {n : Naming} {d : Dependency} {context : Option Text}
    {e : MissingDependency} (h : n.resolveDependency d context = .error e) :
    n.lemmas.get? e.token = none ∧ e.token = d.name := by
  unfold resolveDependency at h
  split at h
  · cases h
  · split at h
    · cases h
    · next unknown =>
        cases h
        exact ⟨unknown, rfl⟩
  · exact ⟨get?_of_resolve_error h, token_of_resolve_error h⟩

/-- A lemma is rejected for its own name or for one of its dependencies. -/
theorem of_resolveLemma_error {n : Naming} {records : Records} {record : LemmaRecord}
    {e : MissingDependency} (h : n.resolveLemma records record = .error e) :
    n.lemmas.get? e.token = none ∧
      (e.token = record.name ∨ ∃ d ∈ record.dependencies, e.token = d.name) := by
  unfold resolveLemma at h
  rcases named : n.resolve record.name none with e' | name
  · rw [named] at h
    cases h
    exact ⟨get?_of_resolve_error named, .inl (token_of_resolve_error named)⟩
  · rcases cited : record.dependencies.mapM fun d =>
        n.resolveDependency d (some (dependencyContext record)) with e' | dependencies
    · rw [named, cited] at h
      cases h
      obtain ⟨d, mem, failed⟩ := exists_of_mapM_error cited
      obtain ⟨unknown, same⟩ := of_resolveDependency_error failed
      exact ⟨unknown, .inr ⟨d, mem, same⟩⟩
    · rw [named, cited] at h
      cases h

/-- Naming fails on a reference that calls for an axiom, or on a lemma. -/
theorem of_finalize_error {n n' : Naming} {records : Records} {e : MissingDependency}
    (h : n.finalize records = (n', .error e)) : e.token ∈ candidates records ∨
      ∃ kept, n' = renumber kept records ∧
        ∃ record ∈ records.lemmas.values, n'.resolveLemma records record = .error e := by
  rcases retention : n.retain records with ⟨kept, e' | retained⟩
  · simp only [finalize, retention] at h
    cases h
    exact .inl (mem_of_retainFrom_error retention)
  · simp only [finalize, retention] at h
    obtain ⟨rfl, outcome⟩ := Prod.mk.inj h
    rcases resolved : records.lemmas.values.mapM ((kept.renumber records).resolveLemma records)
      with e' | lemmas
    · rw [resolved] at outcome
      cases outcome
      exact .inr ⟨kept, rfl, exists_of_mapM_error resolved⟩
    · rw [resolved] at outcome
      cases outcome

theorem lemmas_retainFrom (n : Naming) (axioms : Registry Text AxiomRecord) (rank : Nat)
    (tokens : List Text) : (n.retainFrom axioms rank tokens).1.lemmas = n.lemmas := by
  fun_induction retainFrom n axioms rank tokens with
  | case1 => rfl
  | case2 => rfl
  | case3 n rank token rest record declared name n' kept e failed ih =>
      rw [failed] at ih
      exact ih
  | case4 n rank token rest record declared name n' kept retained passed ih =>
      rw [passed] at ih
      exact ih

/-- Where no lemma goes by a token, none is entered under it. -/
theorem get?_lemmas_of_finalize {n : Naming} {records : Records} {hypothesis token : Text}
    {outcome : Except MissingDependency Resolution}
    (h : (initial hypothesis).finalize records = (n, outcome))
    (unknown : token ∉ records.lemmas.keys) : n.lemmas.get? token = none := by
  have nothing : ((initial hypothesis).retain records).1.lemmas = ∅ :=
    lemmas_retainFrom _ records.axioms 1 (candidates records)
  rcases retention : (initial hypothesis).retain records with ⟨kept, e | retained⟩
  · simp only [finalize, retention] at h
    obtain ⟨rfl, -⟩ := Prod.mk.inj h
    rw [retention] at nothing
    rw [nothing]
    rfl
  · simp only [finalize, retention] at h
    obtain ⟨rfl, -⟩ := Prod.mk.inj h
    rw [retention] at nothing
    rw [get?_renumber, if_neg unknown, nothing]
    rfl

/-- No lemma is ever rejected. -/
theorem not_lemma_of_finalize_error {n n' : Naming} {records : Records} {e : MissingDependency}
    (h : n.finalize records = (n', .error e)) : e.token ∉ records.lemmas.keys := by
  rcases of_finalize_error h with candidate | ⟨kept, rfl, record, -, failed⟩
  · exact (mem_candidates.mp candidate).2.2
  · intro known
    have unknown := (of_resolveLemma_error failed).1
    rw [get?_renumber, if_pos known] at unknown
    cases unknown

/-- What is rejected is referred to on a line of a proof, or a recorded lemma depends on it. -/
theorem cited_of_finalize_error {n n' : Naming} {records : Records} {e : MissingDependency}
    (coherent : records.Coherent) (h : n.finalize records = (n', .error e)) :
    e.token ∈ records.used ∨
      ∃ record ∈ records.lemmas.values, .ofName e.token ∈ record.dependencies := by
  have notLemma := not_lemma_of_finalize_error h
  rcases of_finalize_error h with candidate | ⟨kept, rfl, record, mem, failed⟩
  · exact .inl (mem_candidates.mp candidate).1
  · obtain ⟨key, found⟩ := Registry.mem_values_iff.mp mem
    have filed := coherent.lemmas key record found
    rcases (of_resolveLemma_error failed).2 with itself | ⟨d, cites, same⟩
    · rw [itself, filed.name] at notLemma
      exact absurd (Registry.mem_keys_iff.mpr ⟨record, found⟩) notLemma
    · rw [same, ← filed.kinds d cites]
      exact .inr ⟨record, mem, cites⟩

/-! ## Numbers that are found -/

/-- The token that naming fails on. -/
def failsOn? : Except MissingDependency Resolution → Option Text
  | .ok _ => none
  | .error e => some e.token

/-- A token is found under a name: naming does not fail on it, and where naming succeeds the
    token stands for the name, as a dependency and by itself. -/
def Finds (n : Naming) (outcome : Except MissingDependency Resolution) (token name : Text) : Prop :=
  failsOn? outcome ≠ some token ∧
    ∀ r, outcome = .ok r → ∀ context,
      n.resolveDependency (.ofName token) context = .ok name ∧ n.resolve token context = .ok name

section

variable {hypothesis : Text} {records : Records} {n : Naming}
  {outcome : Except MissingDependency Resolution} {token : Text}

theorem finds_of_mem_keys (named : (initial hypothesis).finalize records = (n, outcome))
    (mentioned : Dependency.kindOf token = .mentioned) (known : token ∈ records.lemmas.keys) :
    Finds n outcome token (records.canonicalName token) := by
  constructor
  · intro fails
    cases outcome with
    | ok r => cases fails
    | error e =>
        cases fails
        exact not_lemma_of_finalize_error named known
  · rintro r rfl context
    have final := isFinal_of_finalize named
    refine ⟨?_, final.resolve_lemma known context⟩
    simp only [resolveDependency, Dependency.ofName, mentioned, final.lemmas, known, if_true]

/-- A number that no lemma goes by is rejected wherever it is looked up. -/
theorem resolveDependency_of_not_mem_keys
    (named : (initial hypothesis).finalize records = (n, outcome))
    (mentioned : Dependency.kindOf token = .mentioned) (unknown : token ∉ records.lemmas.keys)
    (context : Option Text) :
    n.resolveDependency (.ofName token) context = .error ⟨token, context⟩ := by
  simp only [resolveDependency, Dependency.ofName, mentioned, get?_lemmas_of_finalize named unknown]

/-- Naming fails when a recorded lemma depends on a number that no lemma goes by. -/
theorem not_ok_of_not_mem_keys (named : (initial hypothesis).finalize records = (n, outcome))
    (mentioned : Dependency.kindOf token = .mentioned) (unknown : token ∉ records.lemmas.keys)
    {record : LemmaRecord} (mem : record ∈ records.lemmas.values)
    (cites : .ofName token ∈ record.dependencies) (r : Resolution) : outcome ≠ .ok r := by
  rintro rfl
  have final := isFinal_of_finalize named
  obtain ⟨l, -, resolved⟩ := exists_of_forall₂_left final.resolved mem
  obtain ⟨_, _, -, cited, -⟩ := resolveLemma_ok_iff.mp resolved
  obtain ⟨name, -, found⟩ := exists_of_forall₂_left cited cites
  simp only [resolveDependency, Dependency.ofName, mentioned, final.lemmas, unknown, if_false] at found
  cases found

theorem cited_of_fails (coherent : records.Coherent)
    (named : (initial hypothesis).finalize records = (n, outcome))
    (fails : failsOn? outcome = some token) : token ∈ records.used ∨
      ∃ record ∈ records.lemmas.values, .ofName token ∈ record.dependencies := by
  cases outcome with
  | ok r => cases fails
  | error e =>
      cases fails
      exact cited_of_finalize_error coherent named

end

/-- A heading puts its lemma on record under the name that it gives, or without one under its
    number. A citation of a lemma by the heading's digits is a justification and a dependency of
    its block. It is found when the heading gives no name and the digits are how its number is
    written, and in general exactly when a lemma goes by the digits. If none does, every lookup of
    the citation is rejected, so naming fails if a recorded lemma depends on it, and it fails on
    the citation only for such a lemma or for a reference to the name in parentheses. -/
theorem resolve_numbered {text : Text} {records : Records}
    (scanned : Records.ofTranscript text = .ok records) {place : Nat} {digits : Text}
    {heading : Heading} {filed : Text}
    (opens : Scanner.OpensAt (lines text) place digits heading filed) {hypothesis : Text}
    {n : Naming} {outcome : Except MissingDependency Resolution}
    (named : (initial hypothesis).finalize records = (n, outcome)) :
    let cited := Dependency.lemmaName digits
    filed ∈ records.lemmas.keys ∧
      (CalcStep.isJustification (CalcStep.numberLine digits) = true ∧
        CalcStep.citedToken? (CalcStep.numberLine digits) = some cited ∧
        ∀ block : ProofBlock, (∃ line ∈ block.lines, line.text = CalcStep.numberLine digits) →
          Dependency.ofName cited ∈ block.dependencies) ∧
      (heading.name = none → (Numeral.ofDigits digits).text = digits →
        filed = cited ∧ Finds n outcome cited (records.canonicalName filed)) ∧
      (∀ name, heading.name = some name → filed = name) ∧
      (cited ∈ records.lemmas.keys → Finds n outcome cited (records.canonicalName cited)) ∧
      (cited ∉ records.lemmas.keys →
        (∀ context, n.resolveDependency (.ofName cited) context = .error ⟨cited, context⟩) ∧
        (∀ record ∈ records.lemmas.values, Dependency.ofName cited ∈ record.dependencies →
          ∀ r, outcome ≠ .ok r) ∧
        (failsOn? outcome = some cited → cited ∈ records.used ∨
          ∃ record ∈ records.lemmas.values, Dependency.ofName cited ∈ record.dependencies)) := by
  obtain ⟨s, reached, rfl⟩ := Records.ofTranscript_ok_iff.mp scanned
  have known : filed ∈ s.finish.records.lemmas.keys := by
    have keys : s.finish.records.lemmas.keys = s.records.lemmas.keys := s.frame_closeBlock.keys
    rw [keys]
    exact opens.mem_keys reached
  have name := opens.filed
  obtain ⟨nonempty, all⟩ := opens.digits
  have mentioned := Dependency.kindOf_lemmaName nonempty all
  refine ⟨known, ⟨CalcStep.isJustification_numberLine all,
    CalcStep.citedToken?_numberLine nonempty all, ?_⟩, ?_, ?_, finds_of_mem_keys named mentioned,
    fun unknown => ⟨resolveDependency_of_not_mem_keys named mentioned unknown, fun record mem cites =>
      not_ok_of_not_mem_keys named mentioned unknown mem cites, ?_⟩⟩
  · rintro block ⟨line, mem, same⟩
    apply Dependency.ofName_mem_ofLines
    refine ⟨line.text, List.mem_map_of_mem mem, ?_⟩
    rw [same]
    exact CalcStep.cites_numberLine nonempty all
  · intro unnamed written
    rw [unnamed, written, Option.getD_none] at name
    subst name
    exact ⟨rfl, finds_of_mem_keys named mentioned known⟩
  · intro given gives
    rw [gives, Option.getD_some] at name
    exact name
  · exact cited_of_fails (Records.coherent_of_ofTranscript scanned) named

/-! ## Transcripts that cite a number -/

/-- A transcript with a heading, and in the block after it a citation of some digits. -/
def citingNumber (heading digits : Text) : Text := joinLines
  [ lit "fof(h,axiom,X=X).",
    lit "fof(g,conjecture,X=X).",
    Event.proofMarker,
    heading,
    lit "Lemma 2: X = X",
    lit "X",
    CalcStep.numberLine digits,
    lit "X" ]

theorem names_of_evaluated (text : Text) (failure : Option Text)
    (evaluated : (Records.ofTranscript text).toOption.map (fun records =>
      failsOn? ((initial Options.standard.hypothesisName).finalize records).2) = some failure) :
    ∃ records n outcome, Records.ofTranscript text = .ok records ∧
      (initial Options.standard.hypothesisName).finalize records = (n, outcome) ∧
      failsOn? outcome = failure := by
  obtain ⟨records, scanned, fails⟩ := Option.map_eq_some_iff.mp evaluated
  exact ⟨records, _, _, toOption_eq_some_iff.mp scanned, rfl, fails⟩

/-- A heading without a name. -/
def plainHeading : Text := lit "Lemma 12: X = X"

/-- The lemma under that heading is found by its number. -/
theorem resolve_numbered_plainHeading : ∃ records n outcome filed heading,
    Records.ofTranscript (citingNumber plainHeading (lit "12")) = .ok records ∧
      (initial Options.standard.hypothesisName).finalize records = (n, outcome) ∧
      Scanner.OpensAt (lines (citingNumber plainHeading (lit "12"))) 3 (lit "12") heading filed ∧
      filed = lit "Lemma_12" ∧ failsOn? outcome = none ∧
      Finds n outcome (lit "Lemma_12") (records.canonicalName filed) := by
  obtain ⟨records, n, outcome, scanned, named, fails⟩ :=
    names_of_evaluated (citingNumber plainHeading (lit "12")) none (by decide +kernel)
  have opens : Scanner.OpensAt (lines (citingNumber plainHeading (lit "12"))) 3 (lit "12")
      ⟨.auxiliary, .ofDigits (lit "12"), none, lit "X = X"⟩ (lit "Lemma_12") :=
    .of_evaluated plainHeading (by decide +kernel) (.of_all (lit " ") (lit ": X = X") (by decide))
      (by decide +kernel) (by decide +kernel)
  have written : (Numeral.ofDigits (lit "12")).text = lit "12" :=
    Numeral.text_ofDigits ⟨by decide, List.all_eq_true.mp (by decide), by decide⟩ (by decide)
  obtain ⟨-, -, found, -⟩ := resolve_numbered scanned opens named
  obtain ⟨-, finds⟩ := found rfl written
  exact ⟨records, n, outcome, _, _, scanned, named, opens, rfl, fails, finds⟩

/-- A heading with a name. -/
def namedHeading : Text := lit "Lemma 1 (single_lemma_3): X = X"

/-- A heading whose digits begin with a zero. -/
def paddedHeading : Text := lit "Lemma 007: X = X"

/-- A heading's lemma is not found by the heading's digits, on which naming fails. -/
def RejectsNumber (headed digits : Text) : Prop :=
  ∃ records n outcome filed heading,
    Records.ofTranscript (citingNumber headed digits) = .ok records ∧
    (initial Options.standard.hypothesisName).finalize records = (n, outcome) ∧
    Scanner.OpensAt (lines (citingNumber headed digits)) 3 digits heading filed ∧
    (lines (citingNumber headed digits))[6]? = some (CalcStep.numberLine digits) ∧
    failsOn? outcome = some (Dependency.lemmaName digits)

theorem numbered_not_found :
    RejectsNumber namedHeading (lit "1") ∧ RejectsNumber paddedHeading (lit "007") := by
  constructor
  · obtain ⟨records, n, outcome, scanned, named, fails⟩ :=
      names_of_evaluated (citingNumber namedHeading (lit "1"))
        (some (Dependency.lemmaName (lit "1"))) (by decide +kernel)
    have opens : Scanner.OpensAt (lines (citingNumber namedHeading (lit "1"))) 3 (lit "1")
        ⟨.auxiliary, .ofDigits (lit "1"), some (lit "single_lemma_3"), lit "X = X"⟩
        (lit "single_lemma_3") :=
      .of_evaluated namedHeading (by decide +kernel)
        (.of_all (lit " ") (lit " (single_lemma_3): X = X") (by decide)) (by decide +kernel)
        (by decide +kernel)
    exact ⟨records, n, outcome, _, _, scanned, named, opens, by decide +kernel, fails⟩
  · obtain ⟨records, n, outcome, scanned, named, fails⟩ :=
      names_of_evaluated (citingNumber paddedHeading (lit "007"))
        (some (Dependency.lemmaName (lit "007"))) (by decide +kernel)
    have opens : Scanner.OpensAt (lines (citingNumber paddedHeading (lit "007"))) 3 (lit "007")
        ⟨.auxiliary, .ofDigits (lit "007"), none, lit "X = X"⟩ (lit "Lemma_7") :=
      .of_evaluated paddedHeading (by decide +kernel) (.of_all (lit " ") (lit ": X = X") (by decide))
        (by decide +kernel) (by decide +kernel)
    exact ⟨records, n, outcome, _, _, scanned, named, opens, by decide +kernel, fails⟩

end Naming

end MagmaTrace
