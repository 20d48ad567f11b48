import MagmaTrace.Proofs.Discovery

/-! # Where a lemma's dependencies come from

A declaration gives its lemma the dependencies that it hints at, the end of a block those that
the proof cites, and a heading none. The last of these counts. So a lemma with a proof depends
on what the proof cites, unless a later line declares it again, or it was no lemma when the
proof was stored (`Scanner.dependencies_of_proved`).
-/

namespace MagmaTrace

open Text

/-! ## Lines that declare a lemma -/

namespace Event

/-- The hints on a line that declares a lemma of a given name. -/
def hintsFor? (name rawLine : Text) : Option (List Text) :=
  if lemmaMarks.any (startsWith · (trim rawLine)) then
    match lemmaLine? (trim rawLine) with
    | some (.lemmaStated declared _ hints) => if declared = name then some hints else none
    | _ => none
  else none

/-- A line with the mark of a declared lemma is a comment. -/
theorem comment_of_marked {line : Text} (marked : lemmaMarks.any (startsWith · line) = true) :
    ∃ rest, line = lit "%" ++ rest := by
  obtain ⟨mark, known, begins⟩ := List.any_eq_true.mp marked
  obtain ⟨rest, stripped⟩ := Option.isSome_iff_exists.mp begins
  rw [strip?_eq_some.mp stripped]
  rcases List.mem_pair.mp known with rfl | rfl
  · exact ⟨lit " single_lemma_" ++ rest, rfl⟩
  · exact ⟨lit " history_lemma_" ++ rest, rfl⟩

/-- Such a line is nothing else in any phase. -/
theorem step_of_marked (phase : Phase) {rawLine : Text}
    (marked : lemmaMarks.any (startsWith · (trim rawLine)) = true) :
    (phase.step rawLine).2 = (lemmaLine? (trim rawLine)).toList := by
  obtain ⟨rest, begins⟩ := comment_of_marked marked
  have noAxiom : axiomLine? (lit "%" ++ rest) = none := rfl
  have noMarker : startsWith proofMarker (lit "%" ++ rest) = false := rfl
  rw [begins] at marked ⊢
  simp only [Phase.step, begins, noAxiom, noMarker, marked, if_true, if_false, Bool.false_eq_true]

theorem hintsFor?_eq_some_iff (phase : Phase) {name rawLine : Text} {hints : List Text} :
    hintsFor? name rawLine = some hints ↔
      ∃ statement, .lemmaStated name statement hints ∈ (phase.step rawLine).2 := by
  unfold hintsFor?
  by_cases marked : lemmaMarks.any (startsWith · (trim rawLine)) = true
  · rw [if_pos marked, step_of_marked phase marked]
    simp only [Option.mem_toList]
    rcases declared : lemmaLine? (trim rawLine) with _ | event
    · simp
    · obtain ⟨other, statement, hints, rfl⟩ := eq_lemmaStated_of_lemmaLine? declared
      simp only [Option.ite_none_right_eq_some, Option.some.injEq, lemmaStated.injEq]
      constructor
      · rintro ⟨rfl, rfl⟩
        exact ⟨statement, rfl, rfl, rfl⟩
      · rintro ⟨_, rfl, rfl, rfl⟩
        exact ⟨rfl, rfl⟩
  · rw [if_neg marked]
    simp only [reduceCtorEq, false_iff]
    rintro ⟨statement, mem⟩
    cases Phase.isSaidBy_of_step mem with
    | lemmaStated isMarked => exact marked isMarked

end Event

/-! ## What is on record about one name -/

namespace Records

/-- What a lemma on record depends on. -/
def dependenciesOf? (r : Records) (name : Text) : Option (List Dependency) :=
  (r.lemmas.get? name).map (·.dependencies)

theorem dependenciesOf?_addLemma (r : Records) (record : LemmaRecord) (name : Text) :
    (r.addLemma record).dependenciesOf? name =
      if name = record.name then some record.dependencies else r.dependenciesOf? name := by
  unfold dependenciesOf? addLemma
  rw [Registry.get?_insert]
  split <;> rfl

theorem dependenciesOf?_eq_none {r : Records} {name : Text} :
    r.dependenciesOf? name = none ↔ name ∉ r.lemmas.keys := by
  rw [dependenciesOf?, Option.map_eq_none_iff, ← Registry.contains_iff, Registry.contains,
    Option.isSome_iff_ne_none, not_not]

end Records

/-- Whether a block is a proof of a name: it goes by the name and has lines. -/
def ProofBlock.proves (block : ProofBlock) (name : Text) : Bool :=
  block.name = name ∧ block.lines ≠ []

namespace Records

theorem get?_proofs_addProof (r : Records) (block : ProofBlock) (name : Text) :
    (r.addProof block).proofs.get? name =
      if block.proves name then some block else r.proofs.get? name := by
  have stored : (r.proofs.insert block.name block).get? name =
      if block.name = name then some block else r.proofs.get? name := by
    rw [Registry.get?_insert]
    simp only [eq_comm]
  unfold addProof ProofBlock.proves
  by_cases empty : block.lines = []
  · simp only [empty, if_true, ne_eq, not_true_eq_false, and_false, decide_false, if_false,
      Bool.false_eq_true]
  · simp only [empty, if_false, ne_eq, not_false_eq_true, and_true, decide_eq_true_eq]
    split <;> exact stored

theorem dependenciesOf?_addProof (r : Records) (block : ProofBlock) (name : Text) :
    (r.addProof block).dependenciesOf? name =
      if block.proves name then (r.dependenciesOf? name).map fun _ => block.dependencies
      else r.dependenciesOf? name := by
  unfold addProof ProofBlock.proves
  by_cases empty : block.lines = []
  · simp only [empty, if_true, ne_eq, not_true_eq_false, and_false, decide_false, if_false,
      Bool.false_eq_true]
  · simp only [empty, if_false, ne_eq, not_false_eq_true, and_true, decide_eq_true_eq]
    unfold dependenciesOf?
    rcases found : r.lemmas.get? block.name with _ | record
    · by_cases same : block.name = name
      · simp [← same, found]
      · simp [same]
    · dsimp only
      rw [Registry.get?_insert]
      by_cases same : block.name = name
      · simp [← same, found]
      · simp [same, Ne.symm same]

end Records

namespace Scanner

/-- The proof of a name that a line stores by ending its block. -/
def stores? (s : Scanner) (name rawLine : Text) : Option ProofBlock :=
  if s.phase.closes rawLine then s.current.filter (·.proves name) else none

theorem get?_proofs_entering (s : Scanner) (name rawLine : Text) :
    (s.entering rawLine).records.proofs.get? name =
      (s.stores? name rawLine).or (s.records.proofs.get? name) := by
  unfold entering stores?
  cases s.phase.closes rawLine with
  | false => rfl
  | true =>
      rcases opened : s.current with _ | block
      · simp [closeBlock]
      · simp only [closeBlock, if_true, Records.get?_proofs_addProof, Option.filter_some]
        split <;> rfl

theorem dependenciesOf?_entering (s : Scanner) (name rawLine : Text) :
    (s.entering rawLine).records.dependenciesOf? name =
      match s.stores? name rawLine with
      | some block => (s.records.dependenciesOf? name).map fun _ => block.dependencies
      | none => s.records.dependenciesOf? name := by
  unfold entering stores?
  cases s.phase.closes rawLine with
  | false => rfl
  | true =>
      rcases opened : s.current with _ | block
      · simp [closeBlock]
      · simp only [closeBlock, if_true, Records.dependenciesOf?_addProof,
          Option.filter_some]
        split <;> rfl

/-! ## One line -/

theorem proofs_of_takes {s s' : Scanner} {line : Nat} {event : Event}
    (notClosing : event ≠ .blockClosed) (taken : Takes line s event s') :
    s'.records.proofs = s.records.proofs := by
  cases taken with
  | blockClosed => exact absurd rfl notClosing
  | @otherDeclared text collector declaration =>
      obtain ⟨hypothesis, conjecture, same⟩ := s.records.addDeclaration_eq declaration
      exact congrArg (·.proofs) same
  | axiomStated | lemmaStated | knownBlockOpened | newBlockOpened | proofLine | otherUnfinished =>
      rfl

/-- Besides a declaration of the name, only a heading touches what it depends on: it puts a
    lemma without dependencies on record. -/
theorem dependenciesOf?_of_takes {s s' : Scanner} {line : Nat} {event : Event} {name : Text}
    (notClosing : event ≠ .blockClosed)
    (undeclared : ∀ statement hints, event ≠ .lemmaStated name statement hints)
    (taken : Takes line s event s') :
    s'.records.dependenciesOf? name = s.records.dependenciesOf? name ∨
      s.records.dependenciesOf? name = none ∧ s'.records.dependenciesOf? name = some [] := by
  cases taken with
  | blockClosed => exact absurd rfl notClosing
  | @lemmaStated declared statement hints expression =>
      left
      rw [Records.dependenciesOf?_addLemma, if_neg]
      rintro rfl
      exact undeclared statement hints rfl
  | @newBlockOpened heading expression notHypothesis new =>
      by_cases same : name = blockName s.records heading
      · right
        subst same
        rw [Records.dependenciesOf?_addLemma, if_pos rfl, Records.dependenciesOf?_eq_none,
          ← Registry.contains_iff, new]
        exact ⟨Bool.false_ne_true, rfl⟩
      · left
        rw [Records.dependenciesOf?_addLemma, if_neg same]
  | @otherDeclared text collector declaration =>
      obtain ⟨hypothesis, conjecture, same⟩ := s.records.addDeclaration_eq declaration
      exact .inl (congrArg (·.dependenciesOf? name) same)
  | axiomStated | knownBlockOpened | proofLine | otherUnfinished => exact .inl rfl

theorem proofs_of_feed {s s' : Scanner} {line : Nat} {rawLine : Text}
    (h : s.feed rawLine line = (s', none)) (name : Text) :
    s'.records.proofs.get? name = (s.stores? name rawLine).or (s.records.proofs.get? name) := by
  rw [← get?_proofs_entering]
  rcases feed_split h with ⟨-, rfl⟩ | ⟨event, -, notClosing, taken⟩
  · rfl
  · rw [proofs_of_takes notClosing taken]

theorem dependenciesOf?_of_declaring {s s' : Scanner} {line : Nat} {rawLine : Text}
    (h : s.feed rawLine line = (s', none)) {name : Text} {hints : List Text}
    (declares : Event.hintsFor? name rawLine = some hints) :
    s'.records.dependenciesOf? name = some (hints.map Dependency.ofName) := by
  obtain ⟨statement, stated⟩ := (Event.hintsFor?_eq_some_iff s.phase).mp declares
  rcases feed_split h with ⟨quiet, -⟩ | ⟨event, mem, -, taken⟩
  · cases quiet _ stated
  · -- Such a line says one thing only.
    have alone : event = .lemmaStated name statement hints := by
      cases Phase.isSaidBy_of_step stated with
      | lemmaStated marked =>
          rw [Event.step_of_marked s.phase marked, Option.mem_toList] at mem stated
          exact Option.mem_unique mem stated
    subst alone
    cases taken with
    | lemmaStated => rw [Records.dependenciesOf?_addLemma, if_pos rfl]

/-- A line that does not declare the name leaves what it depends on to the end of its block, or
    puts a lemma without dependencies on record. -/
theorem dependenciesOf?_of_silent {s s' : Scanner} {line : Nat} {rawLine : Text}
    (h : s.feed rawLine line = (s', none)) {name : Text}
    (silent : Event.hintsFor? name rawLine = none) :
    s'.records.dependenciesOf? name = (s.entering rawLine).records.dependenciesOf? name ∨
      (s.entering rawLine).records.dependenciesOf? name = none ∧
        s'.records.dependenciesOf? name = some [] := by
  rcases feed_split h with ⟨-, rfl⟩ | ⟨event, mem, notClosing, taken⟩
  · exact .inl rfl
  · refine dependenciesOf?_of_takes notClosing (fun statement hints same => ?_) taken
    have declares := (Event.hintsFor?_eq_some_iff s.phase).mpr ⟨statement, same ▸ mem⟩
    rw [silent] at declares
    cases declares

/-! ## Line after line -/

/-- The proof of a name that a line of a transcript stores; lines are counted from zero. -/
def storedOn? (transcript : List Text) (name : Text) (n : Nat) : Option ProofBlock :=
  match after (transcript.take n), transcript[n]? with
  | .ok s, some rawLine => s.stores? name rawLine
  | _, _ => none

/-- A line stores a proof of a name, and no later line stores another. -/
structure IsLastProof (transcript : List Text) (name : Text) (n : Nat) (block : ProofBlock) :
    Prop where
  stored : storedOn? transcript name n = some block
  last : ∀ m, n < m → storedOn? transcript name m = none

/-- The hints on the last of some lines that declares a lemma of a given name. -/
def lastHints? (name : Text) (rawLines : List Text) : Option (List Text) :=
  (rawLines.filterMap (Event.hintsFor? name)).getLast?

/-- What a name depends on when line `n` is the last to store a proof of it: what the last
    later declaration hints at, else what the proof cites if the name was on record then, else
    nothing. -/
def dependenciesFrom (transcript : List Text) (name : Text) (n : Nat) (block : ProofBlock) :
    List Dependency :=
  match lastHints? name (transcript.drop (n + 1)) with
  | some hints => hints.map Dependency.ofName
  | none => if name ∈ lemmasAfter (transcript.take n) then block.dependencies else []

theorem lt_length_of_storedOn? {transcript : List Text} {name : Text} {n : Nat} {block : ProofBlock}
    (h : storedOn? transcript name n = some block) : n < transcript.length := by
  unfold storedOn? at h
  split at h
  · next found => exact (List.getElem?_eq_some_iff.mp found).1
  · cases h

theorem storedOn?_of_length_le {transcript : List Text} {n : Nat} (beyond : transcript.length ≤ n)
    (name : Text) : storedOn? transcript name n = none := by
  rcases stored : storedOn? transcript name n with _ | block
  · rfl
  · exact absurd (lt_length_of_storedOn? stored) (Nat.not_lt.mpr beyond)

theorem storedOn?_append_of_lt {transcript : List Text} {n : Nat} (inside : n < transcript.length)
    (name rawLine : Text) :
    storedOn? (transcript ++ [rawLine]) name n = storedOn? transcript name n := by
  unfold storedOn?
  rw [List.take_append_of_le_length (Nat.le_of_lt inside), List.getElem?_append_left inside]

theorem storedOn?_append_length {transcript : List Text} {s : Scanner}
    (h : after transcript = .ok s) (name rawLine : Text) :
    storedOn? (transcript ++ [rawLine]) name transcript.length = s.stores? name rawLine := by
  unfold storedOn?
  rw [List.take_left, List.getElem?_concat_length, h]

/-- A line that stores a proof is the last one to do so. -/
theorem isLastProof_of_stores? {transcript : List Text} {s : Scanner} (h : after transcript = .ok s)
    {name rawLine : Text} {block : ProofBlock} (stored : s.stores? name rawLine = some block) :
    IsLastProof (transcript ++ [rawLine]) name transcript.length block := by
  refine ⟨(storedOn?_append_length h name rawLine).trans stored, fun m later => ?_⟩
  exact storedOn?_of_length_le (by rw [List.length_append]; exact later) name

/-- A line that stores no proof leaves the last one as it was. -/
theorem IsLastProof.append_line {transcript : List Text} {s : Scanner} (h : after transcript = .ok s)
    {name rawLine : Text} {n : Nat} {block : ProofBlock} (last : IsLastProof transcript name n block)
    (unstored : s.stores? name rawLine = none) :
    IsLastProof (transcript ++ [rawLine]) name n block := by
  have inside := lt_length_of_storedOn? last.stored
  refine ⟨(storedOn?_append_of_lt inside name rawLine).trans last.stored, fun m later => ?_⟩
  rcases Nat.lt_trichotomy m transcript.length with before | here | beyond
  · rw [storedOn?_append_of_lt before]
    exact last.last m later
  · rw [here, storedOn?_append_length h, unstored]
  · exact storedOn?_of_length_le (by rw [List.length_append]; exact beyond) name

theorem lastHints?_append (name rawLine : Text) (rawLines : List Text) :
    lastHints? name (rawLines ++ [rawLine]) =
      (Event.hintsFor? name rawLine).or (lastHints? name rawLines) := by
  unfold lastHints?
  rw [List.filterMap_append]
  cases hints : Event.hintsFor? name rawLine <;> simp [hints]

/-- Line `n` stores the last proof of a name, and with the later lines it accounts for what the
    name depends on, if it is a lemma at all. -/
structure Accounts (transcript : List Text) (name : Text) (n : Nat) (block : ProofBlock)
    (dependencies : Option (List Dependency)) : Prop where
  last : IsLastProof transcript name n block
  dependencies : dependencies = some (dependenciesFrom transcript name n block) ∨
    dependencies = none ∧ lastHints? name (transcript.drop (n + 1)) = none ∧
      name ∉ lemmasAfter (transcript.take n)

/-- A line that ends a block declares nothing. -/
theorem silent_of_stores? {s : Scanner} {name rawLine : Text} {block : ProofBlock}
    (stored : s.stores? name rawLine = some block) : Event.hintsFor? name rawLine = none := by
  rcases declares : Event.hintsFor? name rawLine with _ | hints
  · rfl
  · obtain ⟨statement, stated⟩ := (Event.hintsFor?_eq_some_iff s.phase).mp declares
    unfold stores? at stored
    split at stored
    · next closing =>
        have closed := List.contains_iff_mem.mp closing
        cases Phase.isSaidBy_of_step stated with
        | lemmaStated marked =>
            rw [Event.step_of_marked s.phase marked, Option.mem_toList] at closed stated
            cases Option.mem_unique closed stated
    · cases stored

theorem accounts_of_stores? {transcript : List Text} {s s' : Scanner}
    (ok : after transcript = .ok s) {name rawLine : Text} {line : Nat}
    (fed : s.feed rawLine line = (s', none)) {block : ProofBlock}
    (stored : s.stores? name rawLine = some block) :
    Accounts (transcript ++ [rawLine]) name transcript.length block
      (s'.records.dependenciesOf? name) := by
  refine ⟨isLastProof_of_stores? ok stored, ?_⟩
  have nothing : (transcript ++ [rawLine]).drop (transcript.length + 1) = [] :=
    List.drop_of_length_le (by simp)
  unfold dependenciesFrom
  rw [nothing, List.take_left, lemmasAfter_of_ok ok, ← Records.dependenciesOf?_eq_none]
  have ending := dependenciesOf?_entering s name rawLine
  rw [stored] at ending
  have effect := dependenciesOf?_of_silent fed (silent_of_stores? stored)
  rw [ending] at effect
  rcases old : s.records.dependenciesOf? name with _ | dependencies
  · have notLemma := Records.dependenciesOf?_eq_none.mp old
    rw [old] at effect
    rcases effect with same | ⟨-, filed⟩
    · exact .inr ⟨same, rfl, rfl⟩
    · left
      rw [filed]
      simp [lastHints?, notLemma]
  · have isLemma : name ∈ s.records.lemmas.keys := by
      by_contra notLemma
      rw [Records.dependenciesOf?_eq_none.mpr notLemma] at old
      cases old
    rw [old] at effect
    rcases effect with same | ⟨absurdly, -⟩
    · left
      rw [same]
      simp [lastHints?, isLemma]
    · cases absurdly

theorem Accounts.append_line {transcript : List Text} {s s' : Scanner}
    (ok : after transcript = .ok s) {name rawLine : Text} {line : Nat}
    (fed : s.feed rawLine line = (s', none)) {n : Nat} {block : ProofBlock}
    (h : Accounts transcript name n block (s.records.dependenciesOf? name))
    (unstored : s.stores? name rawLine = none) :
    Accounts (transcript ++ [rawLine]) name n block (s'.records.dependenciesOf? name) := by
  refine ⟨h.last.append_line ok unstored, ?_⟩
  have inside := lt_length_of_storedOn? h.last.stored
  have known := h.dependencies
  unfold dependenciesFrom at known ⊢
  rw [List.take_append_of_le_length (Nat.le_of_lt inside),
    List.drop_append_of_le_length inside, lastHints?_append]
  have ending : (s.entering rawLine).records.dependenciesOf? name =
      s.records.dependenciesOf? name := by
    rw [dependenciesOf?_entering, unstored]
  rcases declares : Event.hintsFor? name rawLine with _ | hints
  · have effect := dependenciesOf?_of_silent fed declares
    rw [ending] at effect
    rw [Option.none_or]
    rcases effect with same | ⟨missing, filed⟩
    · rw [same]
      exact known
    · rcases known with found | ⟨-, noHints, notLemma⟩
      · rw [missing] at found
        cases found
      · left
        rw [filed, noHints]
        simp [notLemma]
  · left
    rw [dependenciesOf?_of_declaring fed declares]
    rfl

/-- The proof on record of a name is the last one stored, and from there on the lines account for
    what the name depends on. -/
theorem accounts_of_after {transcript : List Text} {s : Scanner} (h : after transcript = .ok s)
    {name : Text} {block : ProofBlock} (proved : s.records.proofs.get? name = some block) :
    ∃ n, Accounts transcript name n block (s.records.dependenciesOf? name) := by
  refine after_induction
    (P := fun transcript s => ∀ block, s.records.proofs.get? name = some block →
      ∃ n, Accounts transcript name n block (s.records.dependenciesOf? name)) ?_ ?_ h block proved
  · intro block proved
    cases proved
  · intro transcript rawLine s s' ok ih fed block proved
    rw [proofs_of_feed fed] at proved
    rcases stored : s.stores? name rawLine with _ | ended
    · rw [stored, Option.none_or] at proved
      obtain ⟨n, accounts⟩ := ih block proved
      exact ⟨n, accounts.append_line ok fed stored⟩
    · rw [stored, Option.some_or] at proved
      cases proved
      exact ⟨transcript.length, accounts_of_stores? ok fed stored⟩

/-- A line that stores a proof of a name ends a block that was opened for a lemma on record or
    for the hypothesis. -/
theorem IsLastProof.engaged {transcript : List Text} {name : Text} {n : Nat} {block : ProofBlock}
    (h : IsLastProof transcript name n block) : ∃ now, after (transcript.take n) = .ok now ∧
      (name ∈ now.records.lemmas.keys ∨ now.records.isHypothesisName name = true) := by
  have stored := h.stored
  unfold storedOn? at stored
  split at stored
  · next now rawLine ok found =>
      unfold stores? at stored
      split at stored
      · obtain ⟨opened, proves⟩ := Option.filter_eq_some_iff.mp stored
        have named : block.name = name := (of_decide_eq_true proves).1
        exact ⟨now, ok, named ▸ (engaged_of_after ok block opened).2⟩
      · cases stored
  · cases stored

/-- A lemma with a proof on record depends on what the proof cites, unless a line after the one
    that stored the proof declares the lemma again, or the name was not a lemma's when the proof
    was stored. Then it depends on what the last such declaration hints at, or else on nothing;
    and the name was the hypothesis's at the time. -/
theorem dependencies_of_proved {transcript : List Text} {s : Scanner} (h : after transcript = .ok s)
    {name : Text} {block : ProofBlock} {record : LemmaRecord}
    (proved : s.records.proofs.get? name = some block)
    (filed : s.records.lemmas.get? name = some record) :
    ∃ n now, IsLastProof transcript name n block ∧ after (transcript.take n) = .ok now ∧
      (lastHints? name (transcript.drop (n + 1)) = none →
        name ∈ now.records.lemmas.keys → record.dependencies = block.dependencies) ∧
      (∀ hints, lastHints? name (transcript.drop (n + 1)) = some hints →
        record.dependencies = hints.map Dependency.ofName) ∧
      (lastHints? name (transcript.drop (n + 1)) = none → name ∉ now.records.lemmas.keys →
        record.dependencies = [] ∧ now.records.isHypothesisName name = true) := by
  obtain ⟨n, last, accounts⟩ := accounts_of_after h proved
  obtain ⟨now, ok, opened⟩ := last.engaged
  have depends : s.records.dependenciesOf? name = some record.dependencies := by
    rw [Records.dependenciesOf?, filed, Option.map_some]
  have from_line : record.dependencies = dependenciesFrom transcript name n block := by
    rcases accounts with same | ⟨missing, -⟩
    · rw [depends] at same
      exact Option.some.inj same
    · rw [depends] at missing
      cases missing
  unfold dependenciesFrom at from_line
  rw [lemmasAfter_of_ok ok] at from_line
  refine ⟨n, now, last, ok, ?_, ?_, ?_⟩
  · intro silent isLemma
    rw [from_line, silent]
    exact if_pos isLemma
  · intro hints declared
    rw [from_line, declared]
  · intro silent notLemma
    refine ⟨?_, opened.resolve_left notLemma⟩
    rw [from_line, silent]
    exact if_neg notLemma

/-! ## Dependencies that the proof does not cite -/

/-- Lines that declare a lemma again after its proof, and make a lemma of what was the hypothesis
    when it was proved. -/
def declaredAfterProof : List Text :=
  [ lit "fof(h,axiom,X=X).",
    Event.proofMarker,
    lit "Lemma 1 (single_lemma_1): X = X",
    lit "= \x7b by axiom 1 (a1) \x7d",
    lit "Lemma 2 (h): X = X",
    lit "= \x7b by axiom 1 (a1) \x7d",
    lit "RESULT",
    lit "% single_lemma_1: X = X | deps: single_lemma_2",
    lit "fof(k,axiom,X=X).",
    lit "Lemma 3 (h): X = X" ]

/-- It is scanned, and records two proofs that do not cite what their lemmas depend on. -/
theorem declaredAfterProof_evaluated : (after declaredAfterProof).isOk = true ∧
    ∀ s ∈ (after declaredAfterProof).toOption, ∀ name ∈ [lit "single_lemma_1", lit "h"],
      (s.records.proofs.get? name).any (fun block =>
        (s.records.lemmas.get? name).any fun record =>
          record.dependencies ≠ block.dependencies) = true := by
  decide +kernel

theorem declaredAfterProof_recorded {s : Scanner} (scanned : after declaredAfterProof = .ok s)
    {name : Text} (mem : name ∈ [lit "single_lemma_1", lit "h"]) : ∃ block record,
      s.records.proofs.get? name = some block ∧ s.records.lemmas.get? name = some record ∧
        record.dependencies ≠ block.dependencies := by
  have differ := declaredAfterProof_evaluated.2 s (toOption_eq_some_iff.mpr scanned) name mem
  obtain ⟨block, proved, rest⟩ := (Option.any_eq_true _ _).mp differ
  obtain ⟨record, filed, other⟩ := (Option.any_eq_true _ _).mp rest
  exact ⟨block, record, proved, filed, of_decide_eq_true other⟩

/-- What the lemma depends on is what its second declaration hints at. -/
theorem dependencies_of_proved_declaredAfterProof :
    ∃ s block record n now, after declaredAfterProof = .ok s ∧
      s.records.proofs.get? (lit "single_lemma_1") = some block ∧
      s.records.lemmas.get? (lit "single_lemma_1") = some record ∧
      IsLastProof declaredAfterProof (lit "single_lemma_1") n block ∧
      after (declaredAfterProof.take n) = .ok now ∧
      ∀ hints, lastHints? (lit "single_lemma_1") (declaredAfterProof.drop (n + 1)) = some hints →
        record.dependencies = hints.map Dependency.ofName := by
  obtain ⟨s, scanned⟩ := isOk_iff.mp declaredAfterProof_evaluated.1
  obtain ⟨block, record, proved, filed, -⟩ :=
    declaredAfterProof_recorded scanned List.mem_cons_self
  obtain ⟨n, now, last, ok, -, hinted, -⟩ := dependencies_of_proved scanned proved filed
  exact ⟨s, block, record, n, now, scanned, proved, filed, last, ok, hinted⟩

/-- A lemma with a proof need not depend on what the proof cites: neither after a second
    declaration nor when it was the hypothesis at the time of its proof. -/
theorem depends_on_uncited : ∃ s, after declaredAfterProof = .ok s ∧
    ∀ name ∈ [lit "single_lemma_1", lit "h"], ∃ block record,
      s.records.proofs.get? name = some block ∧ s.records.lemmas.get? name = some record ∧
        record.dependencies ≠ block.dependencies := by
  obtain ⟨s, scanned⟩ := isOk_iff.mp declaredAfterProof_evaluated.1
  exact ⟨s, scanned, fun name mem => declaredAfterProof_recorded scanned mem⟩

end Scanner

end MagmaTrace
