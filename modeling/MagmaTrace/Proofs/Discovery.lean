import MagmaTrace.Proofs.Lines

/-! # The order of discovery

A line of a transcript puts at most one new lemma on record, after all earlier ones. So the
lemmas stand in the order of the lines that first put them on record, whatever later lines
declare again or prove.
-/

namespace MagmaTrace

open Text

namespace Scanner

/-- The lemma that an event puts on record if it is not there yet. -/
def filedBy (s : Scanner) : Event → Option Text
  | .lemmaStated name _ _ => some name
  | .blockOpened heading => some (blockName s.records heading)
  | _ => none

/-- The lemmas on record after some lines. -/
def lemmasAfter (transcript : List Text) : List Text :=
  match after transcript with
  | .ok s => s.records.lemmas.keys
  | .error _ => []

/-- Whether a lemma is on record after some lines. -/
def isOnRecord (name : Text) (transcript : List Text) : Bool :=
  match after transcript with
  | .ok s => s.records.lemmas.contains name
  | .error _ => false

/-- The number of the line that first puts a lemma on record. -/
def firstLine? (transcript : List Text) (name : Text) : Option Nat :=
  (List.range (transcript.length + 1)).find? fun n => isOnRecord name (transcript.take n)

/-! ## One line -/

/-- An event leaves the lemmas on record as they are, or puts its own after them. -/
theorem keys_of_takes {s s' : Scanner} {line : Nat} {event : Event} (taken : Takes line s event s') :
    s'.records.lemmas.keys = s.records.lemmas.keys ∨
      ∃ name, s.filedBy event = some name ∧ name ∉ s.records.lemmas.keys ∧
        s'.records.lemmas.keys = s.records.lemmas.keys ++ [name] := by
  cases taken with
  | axiomStated => exact .inl rfl
  | @lemmaStated name statement hints expression =>
      by_cases known : name ∈ s.records.lemmas.keys
      · left
        change (s.records.lemmas.insert _ _).keys = _
        rw [Registry.keys_insert, if_pos known]
      · right
        refine ⟨name, rfl, known, ?_⟩
        change (s.records.lemmas.insert _ _).keys = _
        rw [Registry.keys_insert, if_neg known]
  | knownBlockOpened => exact .inl rfl
  | @newBlockOpened heading expression notHypothesis new =>
      right
      have unknown : blockName s.records heading ∉ s.records.lemmas.keys := by
        rw [← Registry.contains_iff, new]
        exact Bool.false_ne_true
      refine ⟨_, rfl, unknown, ?_⟩
      change (s.records.lemmas.insert _ _).keys = _
      rw [Registry.keys_insert, if_neg unknown]
  | proofLine => exact .inl rfl
  | blockClosed => exact .inl s.frame_closeBlock.keys
  | otherUnfinished => exact .inl rfl
  | @otherDeclared text collector declaration =>
      obtain ⟨hypothesis, conjecture, same⟩ := s.records.addDeclaration_eq declaration
      exact .inl (congrArg (·.lemmas.keys) same)

/-- Ending the open block does not change what an event puts on record. -/
theorem filedBy_entering (s : Scanner) (rawLine : Text) (event : Event) :
    (s.entering rawLine).filedBy event = s.filedBy event := by
  unfold filedBy blockName
  rw [(s.frame_entering rawLine).conjecture]

/-- A line leaves the lemmas on record as they are, or puts one that it names after them. -/
theorem keys_of_feed {s s' : Scanner} {line : Nat} {rawLine : Text}
    (h : s.feed rawLine line = (s', none)) :
    s'.records.lemmas.keys = s.records.lemmas.keys ∨
      ∃ event ∈ (s.phase.step rawLine).2, ∃ name, s.filedBy event = some name ∧
        name ∉ s.records.lemmas.keys ∧
        s'.records.lemmas.keys = s.records.lemmas.keys ++ [name] := by
  have keys := (s.frame_entering rawLine).keys
  rcases feed_split h with ⟨-, rfl⟩ | ⟨event, mem, -, taken⟩
  · exact .inl keys
  · have filed := keys_of_takes taken
    rw [keys, filedBy_entering] at filed
    exact filed.imp_right fun files => ⟨event, mem, files⟩

/-! ## Line after line -/

theorem lemmasAfter_of_ok {transcript : List Text} {s : Scanner} (h : after transcript = .ok s) :
    lemmasAfter transcript = s.records.lemmas.keys := by
  unfold lemmasAfter
  rw [h]

theorem after_append_singleton {transcript : List Text} {rawLine : Text} {s' : Scanner} :
    after (transcript ++ [rawLine]) = .ok s' ↔ ∃ s, after transcript = .ok s ∧
      s.feed rawLine (transcript.length + 1) = (s', none) := by
  unfold after
  rw [feedAll_append_singleton, Nat.add_comm]

/-- The scanner gets through the beginning of what it gets through. -/
theorem after_take {transcript : List Text} {s : Scanner} (h : after transcript = .ok s) (n : Nat) :
    ∃ s', after (transcript.take n) = .ok s' := by
  refine after_induction (P := fun transcript _ => ∃ s', after (transcript.take n) = .ok s') ?_ ?_ h
  · rw [List.take_nil]
    exact ⟨initial, rfl⟩
  · intro earlier rawLine s s' ok ih fed
    by_cases within : n ≤ earlier.length
    · rw [List.take_append_of_le_length within]
      exact ih
    · rw [List.take_of_length_le (by simp; omega)]
      exact ⟨s', after_append_singleton.mpr ⟨s, ok, fed⟩⟩

/-- The line after the first `n` adds at most one lemma, which it names. -/
theorem lemmasAfter_succ {transcript : List Text} {s : Scanner} (h : after transcript = .ok s)
    {n : Nat} (inside : n < transcript.length) :
    lemmasAfter (transcript.take (n + 1)) = lemmasAfter (transcript.take n) ∨
      ∃ now, after (transcript.take n) = .ok now ∧
        ∃ event ∈ (now.phase.step transcript[n]).2, ∃ name, now.filedBy event = some name ∧
          name ∉ lemmasAfter (transcript.take n) ∧
          lemmasAfter (transcript.take (n + 1)) = lemmasAfter (transcript.take n) ++ [name] := by
  obtain ⟨next, ok⟩ := after_take h (n + 1)
  have split : transcript.take (n + 1) = transcript.take n ++ [transcript[n]] := by simp
  rw [split] at ok
  obtain ⟨now, before, fed⟩ := after_append_singleton.mp ok
  rw [split, lemmasAfter_of_ok ok, lemmasAfter_of_ok before]
  rcases keys_of_feed fed with same | filed
  · exact .inl same
  · exact .inr ⟨now, before, filed⟩

theorem lemmasAfter_take_le {transcript : List Text} {s : Scanner} (h : after transcript = .ok s)
    {m n : Nat} (earlier : m ≤ n) (inside : n ≤ transcript.length) :
    lemmasAfter (transcript.take m) <+: lemmasAfter (transcript.take n) := by
  induction earlier with
  | refl => exact List.prefix_rfl
  | @step n _ ih =>
      have step : lemmasAfter (transcript.take n) <+: lemmasAfter (transcript.take (n + 1)) := by
        rcases lemmasAfter_succ h inside with same | ⟨_, _, _, _, name, _, _, extended⟩
        · simp only [same, List.prefix_rfl]
        · rw [extended]
          exact List.prefix_append ..
      exact (ih (Nat.le_of_succ_le inside)).trans step

/-! ## First lines -/

theorem isOnRecord_iff {name : Text} {transcript : List Text} :
    isOnRecord name transcript = true ↔ name ∈ lemmasAfter transcript := by
  unfold isOnRecord lemmasAfter
  split
  · exact Registry.contains_iff
  · simp only [Bool.false_eq_true, List.not_mem_nil]

theorem firstLine?_eq_some_iff {transcript : List Text} {name : Text} {n : Nat} :
    firstLine? transcript name = some n ↔ n ≤ transcript.length ∧
      name ∈ lemmasAfter (transcript.take n) ∧
      ∀ m < n, name ∉ lemmasAfter (transcript.take m) := by
  unfold firstLine?
  rw [List.find?_range_eq_some]
  simp only [isOnRecord_iff, List.mem_range, Nat.lt_succ_iff, Bool.not_eq_true',
    ← Bool.not_eq_true]
  constructor
  · rintro ⟨found, inside, clear⟩
    exact ⟨inside, found, clear⟩
  · rintro ⟨inside, found, clear⟩
    exact ⟨found, inside, clear⟩

theorem exists_firstLine? {transcript : List Text} {s : Scanner} (h : after transcript = .ok s)
    {name : Text} (mem : name ∈ s.records.lemmas.keys) :
    ∃ n, firstLine? transcript name = some n := by
  have last : name ∈ lemmasAfter (transcript.take transcript.length) := by
    rw [List.take_length, lemmasAfter_of_ok h]
    exact mem
  rcases found : firstLine? transcript name with _ | n
  · have clear := List.find?_eq_none.mp found transcript.length (by simp)
    exact absurd (isOnRecord_iff.mpr last) clear
  · exact ⟨n, rfl⟩

/-- The first line of a lemma declares it or heads its block, and puts it right after the
    lemmas that earlier lines put on record. -/
theorem filed_on_firstLine? {transcript : List Text} {s : Scanner} (h : after transcript = .ok s)
    {name : Text} {n : Nat} (first : firstLine? transcript name = some n) :
    ∃ m, n = m + 1 ∧ ∃ inside : m < transcript.length, ∃ now, after (transcript.take m) = .ok now ∧
      (∃ event ∈ (now.phase.step transcript[m]).2, now.filedBy event = some name) ∧
      lemmasAfter (transcript.take n) = lemmasAfter (transcript.take m) ++ [name] := by
  obtain ⟨within, found, clear⟩ := firstLine?_eq_some_iff.mp first
  cases n with
  | zero =>
      rw [List.take_zero] at found
      cases found
  | succ m =>
      have new := clear m (Nat.lt_succ_self m)
      refine ⟨m, rfl, within, ?_⟩
      rcases lemmasAfter_succ h within with same | ⟨now, ok, event, mem, other, files, -, extended⟩
      · rw [same] at found
        exact absurd found new
      · rw [extended] at found
        have other_eq : name = other :=
          List.mem_singleton.mp ((List.mem_append.mp found).resolve_left new)
        subst other_eq
        exact ⟨now, ok, ⟨event, mem, files⟩, extended⟩

/-- A lemma's place among all lemmas is the number of those that earlier lines put on record. -/
theorem idxOf_of_firstLine? {transcript : List Text} {s : Scanner} (h : after transcript = .ok s)
    {name : Text} {m : Nat} (first : firstLine? transcript name = some (m + 1)) :
    s.records.lemmas.keys.idxOf name = (lemmasAfter (transcript.take m)).length := by
  obtain ⟨within, -, clear⟩ := firstLine?_eq_some_iff.mp first
  obtain ⟨_, same, -, now, -, -, extended⟩ := filed_on_firstLine? h first
  cases same
  have whole := lemmasAfter_take_le h within (Nat.le_refl transcript.length)
  rw [List.take_length, lemmasAfter_of_ok h, extended] at whole
  obtain ⟨rest, keys⟩ := whole
  rw [← keys, List.append_assoc, List.idxOf_append_of_notMem (clear m (Nat.lt_succ_self m))]
  simp

/-- Lemmas stand in the order of their first lines. -/
theorem idxOf_lt_iff {transcript : List Text} {s : Scanner} (h : after transcript = .ok s)
    {a b : Text} {m n : Nat} (ha : firstLine? transcript a = some m)
    (hb : firstLine? transcript b = some n) :
    s.records.lemmas.keys.idxOf a < s.records.lemmas.keys.idxOf b ↔ m < n := by
  obtain ⟨i, rfl, withinA, -, -, -, extendedA⟩ := filed_on_firstLine? h ha
  obtain ⟨j, rfl, withinB, -, -, -, extendedB⟩ := filed_on_firstLine? h hb
  rw [idxOf_of_firstLine? h ha, idxOf_of_firstLine? h hb]
  -- A line counts the lemmas of all earlier ones, its own not among them.
  have count {x y : Nat} {name : Text} (order : x < y) (inside : y ≤ transcript.length)
      (extended : lemmasAfter (transcript.take (x + 1)) = lemmasAfter (transcript.take x) ++ [name]) :
      (lemmasAfter (transcript.take x)).length < (lemmasAfter (transcript.take y)).length := by
    have longer := (lemmasAfter_take_le h order inside).length_le
    rw [extended, List.length_append, List.length_singleton] at longer
    exact longer
  rcases Nat.lt_trichotomy i j with less | same | greater
  · have := count less (Nat.le_of_lt withinB) extendedA
    omega
  · subst same
    omega
  · have := count greater (Nat.le_of_lt withinA) extendedB
    omega

end Scanner

end MagmaTrace
