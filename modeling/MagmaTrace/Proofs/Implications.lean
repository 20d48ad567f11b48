import MagmaTrace.Problem.Generation
import MagmaTrace.Proofs.Numbering

/-! # The theorems of a file of proofs

A theorem is stated by its keyword, white space and the two equations that its name gives. The
theorems of a text are found one after the other, each as far left as can be in what follows the
one before it and with all the digits at its end. A search at every position finds the same ones,
since no theorem is stated within another (`Implication.successive_iff`).
-/

namespace MagmaTrace

open Text

namespace Implication

/-- A run of digits. -/
structure IsRun (digits : Text) : Prop where
  nonempty : digits ≠ []
  allDigits : ∀ u ∈ digits, isDigit u = true

/-- A text states a theorem. -/
structure Spells (i : Implication) (spelling : Text) : Prop where
  hypothesis : IsRun i.hypothesis
  conjecture : IsRun i.conjecture
  parts : ∃ gap, gap ≠ [] ∧ IsBlank gap ∧ spelling = lit "theorem" ++ (gap ++ i.name)

/-- The theorems that a text states one after the other. -/
inductive Successive : Text → List Implication → Prop where
  | done {text : Text} (none : ∀ i spelling, Spells i spelling → ¬ spelling <:+: text) :
      Successive text []
  | next {passed spelling rest : Text} {i : Implication} {later : List Implication}
      (spells : Spells i spelling) (stop : ∀ u ∈ rest.head?, isDigit u = false)
      (first : ∀ j other before after, Spells j other →
        passed ++ (spelling ++ rest) = before ++ (other ++ after) →
        passed.length ≤ before.length)
      (more : Successive rest later) : Successive (passed ++ (spelling ++ rest)) (i :: later)

/-! ## One theorem -/

theorem here?_eq_some {text : Text} {i : Implication} : here? text = some i ↔
    ∃ spelling rest, text = spelling ++ rest ∧ Spells i spelling ∧
      ∀ u ∈ rest.head?, isDigit u = false := by
  constructor
  · intro h
    simp only [here?, Option.bind_eq_bind, Option.bind_eq_some_iff, strip?_eq_some, Prod.exists,
      Option.pure_def, Option.some.injEq] at h
    obtain ⟨_, rfl, _, skipped, _, rfl, hypothesis, _, ranHypothesis, _, rfl, conjecture, rest,
      ranConjecture, rfl⟩ := h
    obtain ⟨⟨gap, _⟩, ranGap, rfl⟩ := Option.map_eq_some_iff.mp skipped
    obtain ⟨rfl, wide, blank, -⟩ := run?_eq_some.mp ranGap
    obtain ⟨rfl, nonempty, all, -⟩ := run?_eq_some.mp ranHypothesis
    obtain ⟨rfl, nonempty', all', stop⟩ := run?_eq_some.mp ranConjecture
    exact ⟨_, rest, by simp [name], ⟨⟨nonempty, all⟩, ⟨nonempty', all'⟩, gap, wide, blank, rfl⟩, stop⟩
  · rintro ⟨_, rest, rfl, ⟨⟨nonempty, all⟩, ⟨nonempty', all'⟩, gap, wide, blank, rfl⟩, stop⟩
    let later := lit "_implies_Equation" ++ (i.conjecture ++ rest)
    have notBlank : ∀ u ∈ (lit "Equation" ++ (i.hypothesis ++ later)).head?, isBlank u = false := by
      rintro u ⟨⟩
      decide
    have notDigit : ∀ u ∈ later.head?, isDigit u = false := by
      rintro u ⟨⟩
      decide
    have word : strip? (lit "theorem") (lit "theorem" ++ (gap ++ i.name) ++ rest) =
        some (gap ++ (lit "Equation" ++ (i.hypothesis ++ later))) :=
      strip?_eq_some.mpr (by simp [name, later])
    have first : strip? (lit "Equation") (lit "Equation" ++ (i.hypothesis ++ later)) =
        some (i.hypothesis ++ later) := strip?_eq_some.mpr rfl
    have second : strip? (lit "_implies_Equation") later = some (i.conjecture ++ rest) :=
      strip?_eq_some.mpr rfl
    simp only [here?, word, skipSomeBlanks?_append wide blank notBlank, first, second,
      run?_eq_some.mpr ⟨rfl, nonempty, all, notDigit⟩, run?_eq_some.mpr ⟨rfl, nonempty', all', stop⟩,
      Option.bind_eq_bind, Option.bind_some, Option.pure_def]

/-- The digits at the end of a theorem may go on. -/
theorem here?_ne_none {i : Implication} {spelling : Text} (spells : Spells i spelling)
    (after : Text) : here? (spelling ++ after) ≠ none := by
  obtain ⟨⟨nonempty, all⟩, ⟨nonempty', all'⟩, gap, wide, blank, rfl⟩ := spells
  let more := after.takeWhile isDigit
  have longer : Spells ⟨i.hypothesis, i.conjecture ++ more⟩
      (lit "theorem" ++ (gap ++ i.name) ++ more) := by
    refine ⟨⟨nonempty, all⟩, ⟨List.append_ne_nil_of_left_ne_nil nonempty' _, ?_⟩,
      gap, wide, blank, by simp [name]⟩
    intro u mem
    rcases List.mem_append.mp mem with digit | digit
    · exact all' u digit
    · exact List.mem_takeWhile_imp digit
  have stop : ∀ u ∈ (after.dropWhile isDigit).head?, isDigit u = false :=
    head?_dropWhile isDigit after
  have whole : lit "theorem" ++ (gap ++ i.name) ++ after =
      lit "theorem" ++ (gap ++ i.name) ++ more ++ after.dropWhile isDigit := by
    rw [List.append_assoc _ more, List.takeWhile_append_dropWhile]
  rw [here?_eq_some.mpr ⟨_, _, whole, longer, stop⟩]
  exact Option.some_ne_none _

/-- After its first two units a theorem has no `h`, and a digit ends it. -/
theorem Spells.exists_tail {i : Implication} {spelling : Text} (h : Spells i spelling) :
    ∃ tail, spelling = ('t' : CodeUnit) :: ('h' : CodeUnit) :: tail ∧ ('h' : CodeUnit) ∉ tail ∧
      ∀ u ∈ tail.getLast?, isDigit u = true := by
  obtain ⟨⟨-, all⟩, ⟨nonempty, all'⟩, gap, -, blank, rfl⟩ := h
  refine ⟨lit "eorem" ++ (gap ++ i.name), rfl, ?_, ?_⟩
  · intro mem
    simp only [name, List.mem_append] at mem
    rcases mem with word | within | ((word | digit) | word) | digit
    · exact absurd word (by decide)
    · exact absurd (blank _ within) (by decide)
    · exact absurd word (by decide)
    · exact absurd (all _ digit) (by decide)
    · exact absurd word (by decide)
    · exact absurd (all' _ digit) (by decide)
  · intro u last
    have ending : (lit "eorem" ++ (gap ++ i.name)).getLast? = i.conjecture.getLast? := by
      simp only [name, ← List.append_assoc]
      exact List.getLast?_append_of_ne_nil _ nonempty
    rw [ending] at last
    exact all' u (List.mem_of_getLast? last)

/-- No theorem is stated within another, where it would begin with `th` again. -/
theorem here?_within {i : Implication} {spelling before later : Text} {u : CodeUnit}
    (spells : Spells i spelling) (split : spelling = u :: (before ++ later)) (nonempty : later ≠ [])
    (rest : Text) : here? (later ++ rest) = none := by
  rw [Option.eq_none_iff_forall_ne_some]
  intro j found
  obtain ⟨tail, whole, noMark, ending⟩ := spells.exists_tail
  obtain ⟨other, after, start, spellsOther, -⟩ := here?_eq_some.mp found
  obtain ⟨more, rfl, -, -⟩ := spellsOther.exists_tail
  obtain ⟨-, inside⟩ := List.cons.inj (whole.symm.trans split)
  obtain ⟨v, rest', rfl⟩ := List.exists_cons_of_ne_nil nonempty
  obtain ⟨rfl, afterMark⟩ := List.cons.inj start
  cases before with
  | nil => exact absurd (List.cons.inj inside).1 (by decide)
  | cons w before =>
      have inTail : tail = before ++ ('t' : CodeUnit) :: rest' := (List.cons.inj inside).2
      cases rest' with
      | nil =>
          rw [inTail, List.getLast?_concat] at ending
          exact absurd (ending _ rfl) (by decide)
      | cons x rest' =>
          obtain ⟨rfl, -⟩ := List.cons.inj afterMark
          exact noMark (by simp [inTail])

/-! ## All theorems -/

theorem all_spelled {i : Implication} {spelling rest : Text} (spells : Spells i spelling)
    (stop : ∀ u ∈ rest.head?, isDigit u = false) : all (spelling ++ rest) = i :: all rest := by
  have here := here?_eq_some.mpr ⟨spelling, rest, rfl, spells, stop⟩
  obtain ⟨tail, whole, -⟩ := spells.exists_tail
  have within : scan here? (('h' : CodeUnit) :: tail ++ rest) = scan here? rest :=
    scan_append_of_none fun before later split nonempty =>
      here?_within spells (whole.trans (congrArg (_ :: ·) split)) nonempty rest
  rw [whole] at here ⊢
  rw [all, List.cons_append, scan, ← List.cons_append, here, Option.toList_some, within]
  rfl

/-- Up to a first theorem there is none. -/
theorem all_passed {passed text : Text}
    (first : ∀ j other before after, Spells j other → passed ++ text = before ++ (other ++ after) →
      passed.length ≤ before.length) : all (passed ++ text) = all text := by
  refine scan_append_of_none fun before later split nonempty => ?_
  rw [Option.eq_none_iff_forall_ne_some]
  intro j found
  obtain ⟨other, after, start, spells, -⟩ := here?_eq_some.mp found
  have long := first j other before after spells (by rw [split, List.append_assoc, start])
  have positive := List.length_pos_of_ne_nil nonempty
  rw [split, List.length_append] at long
  omega

theorem all_eq_nil {text : Text} (none : ∀ i spelling, Spells i spelling → ¬ spelling <:+: text) :
    all text = [] := by
  rw [List.eq_nil_iff_forall_not_mem]
  intro i mem
  obtain ⟨before, rest, rfl, found⟩ := mem_scan.mp mem
  obtain ⟨spelling, after, rfl, spells, -⟩ := here?_eq_some.mp found
  exact none i spelling spells ⟨before, after, by rw [List.append_assoc]⟩

theorem eq_all_of_successive {text : Text} {found : List Implication}
    (h : Successive text found) : found = all text := by
  induction h with
  | done none => exact (all_eq_nil none).symm
  | next spells stop first _ ih => rw [all_passed first, all_spelled spells stop, ih]

theorem successive_all (text : Text) : Successive text (all text) := by
  -- On the length of the text: what follows the first theorem is shorter.
  induction size : text.length using Nat.strongRecOn generalizing text with
  | ind n ih =>
      rcases search : first? here? text with _ | i
      · have clear := first?_eq_none.mp search
        have none : ∀ i spelling, Spells i spelling → ¬ spelling <:+: text := by
          rintro i spelling spells ⟨before, after, rfl⟩
          exact here?_ne_none spells after (clear before _ (List.append_assoc ..))
        rw [all_eq_nil none]
        exact .done none
      · obtain ⟨passed, _, rfl, found, clear⟩ := first?_eq_some search
        obtain ⟨spelling, rest, rfl, spells, stop⟩ := here?_eq_some.mp found
        have first : ∀ j other before after, Spells j other →
            passed ++ (spelling ++ rest) = before ++ (other ++ after) →
            passed.length ≤ before.length := by
          intro j other before after spellsOther split
          by_contra short
          obtain ⟨later, rfl⟩ : before <+: passed :=
            List.prefix_of_prefix_length_le ⟨other ++ after, split.symm⟩
              (List.prefix_append passed _) (by omega)
          have nonempty : later ≠ [] := by
            rintro rfl
            simp at short
          rw [List.append_assoc, List.append_cancel_left_eq] at split
          have noneHere := clear before later rfl nonempty
          rw [split] at noneHere
          exact here?_ne_none spellsOther after noneHere
        have shorter : rest.length < n := by
          obtain ⟨tail, rfl, -⟩ := spells.exists_tail
          simp only [List.length_append, List.length_cons] at size
          omega
        rw [all_passed first, all_spelled spells stop]
        exact .next spells stop first (ih rest.length shorter rest rfl)

/-- A search at every position finds the theorems that a text states one after the other. -/
theorem successive_iff {text : Text} {found : List Implication} :
    Successive text found ↔ found = all text :=
  ⟨eq_all_of_successive, fun same => same ▸ successive_all text⟩

end Implication

end MagmaTrace
