import MagmaTrace.Proofs.Anchors
import MagmaTrace.Proofs.Formulas

/-! # What a collector answers

A collector is told one text after another, and answers with a declaration when one ends. What it
answers can be told from the texts alone: the last of them that has a beginning starts a
declaration anew, all from there on are joined, and the declaration is due where they end one for
the first time (`Collector.answers_eq_due`). What a collector holds in between is told in the same
way (`Collector.held`), so that every step is checked against the texts given so far.
-/

namespace MagmaTrace

open Text

namespace Collector

/-- What a collector answers to some texts, each of which has the number of its line. -/
def answers (pending : Collector) : List (Text × Nat) → List (Option Declaration)
  | [] => []
  | (text, line) :: rest =>
    let (next, found) := pending.feed text line
    found :: next.answers rest

/-! ## What is due -/

/-- Whether the text at a place has a beginning. -/
def beginsAt (given : List (Text × Nat)) (place : Nat) : Bool :=
  given[place]?.any fun entry => occurs Declaration.opening entry.1

/-- The last place before a bound whose text has a beginning. -/
def lastBeginning? (given : List (Text × Nat)) (bound : Nat) : Option Nat :=
  ((List.range bound).filter (beginsAt given)).getLast?

/-- The texts from a place to another, that one included, with single spaces between them. -/
def joined (given : List (Text × Nat)) (start stop : Nat) : Text :=
  join (lit " ") (((given.take (stop + 1)).drop start).map (·.1))

/-- Whether the texts from a place to another end a declaration. -/
def endsAt (given : List (Text × Nat)) (start stop : Nat) : Bool :=
  endsWith Declaration.ending (joined given start stop)

/-- No declaration that starts at a place ends before a bound. -/
def Unfinished (given : List (Text × Nat)) (start bound : Nat) : Prop :=
  ∀ stop < bound, start ≤ stop → endsAt given start stop = false

instance (given : List (Text × Nat)) (start bound : Nat) :
    Decidable (Unfinished given start bound) :=
  inferInstanceAs (Decidable (∀ stop < bound, start ≤ stop → endsAt given start stop = false))

/-- The declaration that is due at a place: the texts from the last beginning on, if they end one
    there and at no place before it. -/
def due? (given : List (Text × Nat)) (place : Nat) : Option Declaration := do
  let start ← lastBeginning? given (place + 1)
  let (_, line) ← given[start]?
  if endsAt given start place = true ∧ Unfinished given start place then
    Declaration.read? (joined given start place) line
  else none

/-- What a collector holds after the texts before a bound. -/
def held (given : List (Text × Nat)) (bound : Nat) : Collector := do
  let start ← lastBeginning? given bound
  let (_, line) ← given[start]?
  if Unfinished given start bound then some ⟨joined given start (bound - 1), line⟩ else none

section

variable {given : List (Text × Nat)} {place start : Nat} {text : Text} {line : Nat}

/-! ## One more text -/

theorem lastBeginning?_succ (given : List (Text × Nat)) (bound : Nat) :
    lastBeginning? given (bound + 1) =
      if beginsAt given bound then some bound else lastBeginning? given bound := by
  unfold lastBeginning?
  rw [List.range_succ, List.filter_append]
  by_cases begins : beginsAt given bound = true
  · simp [begins]
  · simp [begins]

/-- The last beginning is a beginning after which there is none. -/
theorem lastBeginning?_eq_some_iff {bound : Nat} : lastBeginning? given bound = some start ↔
    start < bound ∧ beginsAt given start = true ∧
      ∀ later < bound, start < later → beginsAt given later = false := by
  induction bound with
  | zero => simp [lastBeginning?]
  | succ bound ih =>
      rw [lastBeginning?_succ]
      by_cases begins : beginsAt given bound = true
      · simp only [begins, if_true, Option.some.injEq]
        constructor
        · rintro rfl
          exact ⟨Nat.lt_succ_self _, begins, fun later before after => by omega⟩
        · rintro ⟨inside, -, last⟩
          by_contra other
          have none := last bound (Nat.lt_succ_self bound) (by omega)
          simp [begins] at none
      · simp only [begins, if_false, Bool.false_eq_true, ih]
        constructor
        · rintro ⟨inside, isBeginning, last⟩
          refine ⟨by omega, isBeginning, fun later before after => ?_⟩
          by_cases here : later = bound
          · exact here ▸ Bool.not_eq_true _ ▸ begins
          · exact last later (by omega) after
        · rintro ⟨inside, isBeginning, last⟩
          have other : start ≠ bound := fun same => begins (same ▸ isBeginning)
          exact ⟨by omega, isBeginning, fun later before after => last later (by omega) after⟩

theorem unfinished_succ (within : start ≤ place) : Unfinished given start (place + 1) ↔
    Unfinished given start place ∧ endsAt given start place = false := by
  unfold Unfinished
  constructor
  · intro none
    exact ⟨fun stop before => none stop (by omega), none place (by omega) within⟩
  · rintro ⟨none, here⟩ stop before after
    by_cases last : stop = place
    · exact last ▸ here
    · exact none stop (by omega) after

theorem beginsAt_eq (here : given[place]? = some (text, line)) :
    beginsAt given place = occurs Declaration.opening text := by
  simp [beginsAt, here]

theorem joined_self (here : given[place]? = some (text, line)) :
    joined given place place = text := by
  have inside : place < given.length := (List.getElem?_eq_some_iff.mp here).1
  have one : (given.take (place + 1)).drop place = [(text, line)] := by
    rw [List.take_add_one, here, List.drop_append_of_le_length (by simp; omega)]
    simp
  simp [joined, one]

theorem joined_succ (here : given[place + 1]? = some (text, line)) (within : start ≤ place) :
    joined given start (place + 1) = joined given start place ++ lit " " ++ text := by
  have inside : place + 1 < given.length := (List.getElem?_eq_some_iff.mp here).1
  have earlier : ((given.take (place + 1)).drop start).map (·.1) ≠ [] := by
    simp
    omega
  have longer : (given.take (place + 1 + 1)).drop start =
      (given.take (place + 1)).drop start ++ [(text, line)] := by
    rw [List.take_add_one, here, List.drop_append_of_le_length (by simp; omega)]
    rfl
  rw [joined, longer, List.map_append, join_append earlier (by simp), ← joined]
  simp

/-- The texts from the last beginning on are held until they end a declaration, which is then due. -/
theorem feed_of_gathered {pending : Collector} {first : Text × Nat}
    (last : lastBeginning? given (place + 1) = some start) (started : given[start]? = some first)
    (unfinished : Unfinished given start place)
    (gathered : pending.gather text line = some ⟨joined given start place, first.2⟩) :
    pending.feed text line = (held given (place + 1), due? given place) := by
  have within : start ≤ place := Nat.lt_succ_iff.mp (lastBeginning?_eq_some_iff.mp last).1
  cases ends : endsWith Declaration.ending (joined given start place) with
  | true | false =>
      simp [feed, gathered, ends, held, due?, last, started, unfinished_succ within, unfinished,
        endsAt]

/-- A text with a beginning starts a declaration, whatever was held before. -/
theorem feed_of_begins (here : given[place]? = some (text, line))
    (begins : occurs Declaration.opening text = true) (pending : Collector) :
    pending.feed text line = (held given (place + 1), due? given place) := by
  have last : lastBeginning? given (place + 1) = some place := by
    rw [lastBeginning?_succ, beginsAt_eq here, begins, if_pos rfl]
  refine feed_of_gathered last here (fun stop before after => by omega) ?_
  simp only [gather, begins, if_true, joined_self here]

/-- A text without one goes on with what is held. -/
theorem feed_of_further (here : given[place]? = some (text, line))
    (further : occurs Declaration.opening text = false) :
    (held given place).feed text line = (held given (place + 1), due? given place) := by
  have last : lastBeginning? given (place + 1) = lastBeginning? given place := by
    rw [lastBeginning?_succ, beginsAt_eq here, further, if_neg Bool.false_ne_true]
  cases found : lastBeginning? given place with
  | none => simp [feed, gather, further, held, due?, last, found]
  | some start =>
      obtain ⟨earlier, -, -⟩ := lastBeginning?_eq_some_iff.mp found
      have inside : place < given.length := (List.getElem?_eq_some_iff.mp here).1
      have started : given[start]? = some given[start] := List.getElem?_eq_getElem _
      by_cases unfinished : Unfinished given start place
      · refine feed_of_gathered (last.trans found) started unfinished ?_
        obtain ⟨before, rfl⟩ := Nat.exists_eq_add_one_of_ne_zero (Nat.ne_zero_of_lt earlier)
        simp [gather, further, held, found, started, unfinished,
          joined_succ here (Nat.lt_succ_iff.mp earlier)]
      · -- What ended before stays ended, until the next beginning.
        have ended : ¬ Unfinished given start (place + 1) :=
          fun none => unfinished ((unfinished_succ earlier.le).mp none).1
        simp [feed, gather, further, held, due?, last, found, started, unfinished, ended]

/-- Each text takes what is held before it to what is held after it, and is answered by what is
    due. -/
theorem feed_held (here : given[place]? = some (text, line)) :
    (held given place).feed text line = (held given (place + 1), due? given place) := by
  cases begins : occurs Declaration.opening text with
  | true => exact feed_of_begins here begins _
  | false => exact feed_of_further here begins

end

theorem answers_held (earlier rest : List (Text × Nat)) :
    (held (earlier ++ rest) earlier.length).answers rest =
      (List.range' earlier.length rest.length).map (due? (earlier ++ rest)) := by
  induction rest generalizing earlier with
  | nil => rfl
  | cons entry rest ih =>
      obtain ⟨text, line⟩ := entry
      have here : (earlier ++ (text, line) :: rest)[earlier.length]? = some (text, line) := by simp
      have later := ih (earlier ++ [(text, line)])
      simp only [List.append_assoc, List.singleton_append, List.length_append,
        List.length_singleton] at later
      simp only [answers, feed_held here, later, List.length_cons, List.range'_succ, List.map_cons]

/-- A collector answers each text with what is due there. -/
theorem answers_eq_due (given : List (Text × Nat)) :
    answers none given = (List.range given.length).map (due? given) := by
  have all := answers_held [] given
  rwa [List.nil_append, List.length_nil, ← List.range_eq_range'] at all

/-! ## Declarations kept apart -/

theorem due?_eq_some_iff {given : List (Text × Nat)} {place : Nat} {d : Declaration} :
    due? given place = some d ↔ ∃ start first, lastBeginning? given (place + 1) = some start ∧
      given[start]? = some first ∧ endsAt given start place = true ∧
      Unfinished given start place ∧
      Declaration.read? (joined given start place) first.2 = some d := by
  simp only [due?, Option.bind_eq_bind, Option.bind_eq_some_iff, Option.ite_none_right_eq_some,
    and_assoc, exists_and_left]

theorem answer_eq_some_iff {given : List (Text × Nat)} {place : Nat} {d : Declaration} :
    (answers none given)[place]? = some (some d) ↔
      place < given.length ∧ due? given place = some d := by
  rw [answers_eq_due, List.getElem?_map]
  by_cases inside : place < given.length
  · simp [inside]
  · simp [inside]

/-- Of the declarations that start at a place, only the first that ends is due. -/
theorem eq_of_due {given : List (Text × Nat)} {start place other : Nat}
    (last : lastBeginning? given (place + 1) = some start)
    (last' : lastBeginning? given (other + 1) = some start)
    (ends : endsAt given start place = true) (ends' : endsAt given start other = true)
    (unfinished : Unfinished given start place) (unfinished' : Unfinished given start other) :
    other = place := by
  obtain ⟨within, -, -⟩ := lastBeginning?_eq_some_iff.mp last
  obtain ⟨within', -, -⟩ := lastBeginning?_eq_some_iff.mp last'
  rcases Nat.lt_trichotomy other place with before | same | after
  · have notYet := unfinished other before (by omega)
    simp [ends'] at notYet
  · exact same
  · have notYet := unfinished' place after (by omega)
    simp [ends] at notYet

/-- A beginning gives up what is held, so the answers from there on are those to the texts from
    there on. -/
theorem answers_append_of_begins {first : Text × Nat}
    (begins : occurs Declaration.opening first.1 = true) (pending : Collector)
    (earlier rest : List (Text × Nat)) :
    pending.answers (earlier ++ first :: rest) =
      pending.answers earlier ++ answers none (first :: rest) := by
  induction earlier generalizing pending with
  | nil => simp [answers, feed, gather, begins]
  | cons entry earlier ih => simp [answers, ih]

/-- A collector answers each text with the declaration that is due there: that of the texts from
    the last beginning on, where these end one for the first time. So no answer depends on what
    stands before the last beginning, and a declaration is given once, with the line on which it
    begins. -/
theorem answers_apart (given : List (Text × Nat)) :
    answers none given = (List.range given.length).map (due? given) ∧
    (∀ earlier first rest, given = earlier ++ first :: rest →
      occurs Declaration.opening first.1 = true →
      answers none given = answers none earlier ++ answers none (first :: rest)) ∧
    ∀ place d, (answers none given)[place]? = some (some d) →
      ∃ start text, lastBeginning? given (place + 1) = some start ∧
        given[start]? = some (text, d.line) ∧
        ∀ other d', (answers none given)[other]? = some (some d') →
          lastBeginning? given (other + 1) = some start → other = place := by
  refine ⟨answers_eq_due given, ?_, ?_⟩
  · rintro earlier first rest rfl begins
    exact answers_append_of_begins begins none earlier rest
  · intro place d answered
    obtain ⟨-, due⟩ := answer_eq_some_iff.mp answered
    obtain ⟨start, first, last, started, ends, unfinished, read⟩ := due?_eq_some_iff.mp due
    refine ⟨start, first.1, last, Declaration.line_of_read? read ▸ started, ?_⟩
    intro other d' again last'
    obtain ⟨-, due'⟩ := answer_eq_some_iff.mp again
    obtain ⟨start', -, found, -, ends', unfinished', -⟩ := due?_eq_some_iff.mp due'
    obtain rfl : start = start' := Option.some.inj (last'.symm.trans found)
    exact eq_of_due last last' ends ends' unfinished unfinished'

/-- An unfinished declaration is given up where the next one begins, and text after its end is
    passed over. -/
example : answers none [(lit "fof(c, conjecture,", 1), (lit "fof(h, axiom,", 2), (lit "X = X).", 3),
      (lit "Y = Y).", 4)] =
    [none, none, some ⟨lit "h", .hypothesis, lit "X = X", 2⟩, none] := by
  decide +kernel

end Collector

end MagmaTrace
