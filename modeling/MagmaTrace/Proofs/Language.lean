import MagmaTrace.Proofs.Balance

/-! # The language of expressions

Three searches look at the text of an expression one after another: for parentheses around all of
it, for an equals sign outside parentheses, and for the term on each side. Together they accept
exactly the texts of a grammar (`Expression.accepts_exactly`).
-/

namespace MagmaTrace

open Text

namespace Expression

open Term

/-! ## Trimming -/

theorem trimmed_split (start : Nat) (body : Text) :
    ∃ lead tail, body = lead ++ ((trimmed start body).2 ++ tail) ∧ IsBlank lead ∧
      (∀ u ∈ tail, isTrailing u = true) ∧ (trimmed start body).1 = start + lead.length := by
  obtain ⟨tail, dropped, trailing⟩ := exists_dropped isTrailing (skipBlanks body)
  refine ⟨body.takeWhile isBlank, tail, ?_, fun u mem => List.mem_takeWhile_imp mem, trailing, rfl⟩
  rw [trimmed, ← dropped, skipBlanks, List.takeWhile_append_dropWhile]

/-- Trimming takes off the white space before and the periods after a text with other ends. -/
theorem trimmed_around {lead body tail : Text} (start : Nat) (blank : IsBlank lead)
    (first : ∀ u ∈ body.head?, isBlank u = false) (nonempty : body ≠ [])
    (last : ∀ u ∈ body.getLast?, isTrailing u = false) (trailing : ∀ u ∈ tail, isTrailing u = true) :
    trimmed start (lead ++ (body ++ tail)) = (start + lead.length, body) := by
  have begins : ∀ u ∈ (body ++ tail).head?, isBlank u = false := by
    rwa [List.head?_append, Option.or_of_isSome (List.isSome_head?.mpr nonempty)]
  obtain ⟨taken, dropped⟩ := cut_append blank begins
  unfold trimmed skipBlanks
  rw [taken, dropped, dropEndWhile_append last trailing]

/-! ## The grammar -/

/-- Texts that state an expression by themselves: a side, or two with an equals sign between. -/
inductive IsCore : Expression → Text → Prop where
  | bare {t : Term} {text : Text} (side : IsSide t text) : IsCore (.bare t) text
  | equation {l r : Term} {a b : Text} (left : IsSide l a) (right : IsSide r b) :
      IsCore (.equation l r) (a ++ equalsMark :: b)

/-- Texts that state an expression: its core, in one pair of parentheses or in none, with white
    space before and with white space and periods after it. -/
inductive Spells : Expression → Text → Prop where
  | plain {e : Expression} {lead body tail : Text} (blank : IsBlank lead) (core : IsCore e body)
      (trailing : ∀ u ∈ tail, isTrailing u = true) : Spells e (lead ++ (body ++ tail))
  | enclosed {e : Expression} {lead body tail : Text} (blank : IsBlank lead)
      (core : IsCore e body) (trailing : ∀ u ∈ tail, isTrailing u = true) :
      Spells e (lead ++ openMark :: (body ++ closeMark :: tail))

theorem IsCore.surround {e : Expression} {gap body tail : Text} (h : IsCore e body)
    (blank : IsBlank gap) (trailing : ∀ u ∈ tail, isTrailing u = true) :
    IsCore e (gap ++ (body ++ tail)) := by
  cases h with
  | bare side => exact .bare ((side.append trailing).prepend blank)
  | equation left right =>
      rw [List.append_assoc, ← List.append_assoc, List.cons_append]
      exact .equation (left.prepend blank) (right.append trailing)

/-- A core that starts and ends with its terms. -/
structure IsTight (e : Expression) (text : Text) : Prop where
  core : IsCore e text
  begins : ∃ u more, text = u :: more ∧ isLetter u = true
  ends : ∀ u ∈ text.getLast?, isTrailing u = false

theorem IsCore.exists_tight {e : Expression} {body : Text} (h : IsCore e body) :
    ∃ gap inner tail, body = gap ++ (inner ++ tail) ∧ IsBlank gap ∧
      (∀ u ∈ tail, isTrailing u = true) ∧ IsTight e inner := by
  cases h with
  | bare side =>
      obtain ⟨spelling, tail, rfl, spells, trailing⟩ := side
      obtain ⟨⟨gap, u, more, rfl, blank, letter, inner⟩, -⟩ := spells.ends
      have whole : IsCore _ (u :: more ++ []) := .bare ⟨u :: more, [], rfl, inner, by simp⟩
      rw [List.append_nil] at whole
      exact ⟨gap, u :: more, tail, List.append_assoc .., blank, trailing, whole,
        ⟨u, more, rfl, letter⟩, inner.getLast_not_trailing []⟩
  | equation left right =>
      obtain ⟨spelling, dots, rfl, spells, dotted⟩ := left
      obtain ⟨last, tail, rfl, spellsLast, trailing⟩ := right
      obtain ⟨⟨gap, u, more, rfl, blank, letter, inner⟩, -⟩ := spells.ends
      have whole : IsCore _ (u :: more ++ dots ++ equalsMark :: (last ++ [])) :=
        .equation ⟨u :: more, dots, rfl, inner, dotted⟩ ⟨last, [], rfl, spellsLast, by simp⟩
      rw [List.append_nil] at whole
      refine ⟨gap, u :: more ++ dots ++ equalsMark :: last, tail, by simp, blank, trailing, whole,
        ⟨u, _, rfl, letter⟩, ?_⟩
      rw [List.append_cons]
      exact spellsLast.getLast_not_trailing _

theorem IsTight.ne_nil {e : Expression} {text : Text} (h : IsTight e text) : text ≠ [] := by
  obtain ⟨u, more, rfl, -⟩ := h.begins
  exact List.cons_ne_nil u more

theorem IsTight.head?_not_blank {e : Expression} {text : Text} (h : IsTight e text) :
    ∀ u ∈ text.head?, isBlank u = false := by
  obtain ⟨v, more, rfl, letter⟩ := h.begins
  intro u first
  cases first
  exact isBlank_of_isLetter letter

/-- Trimming a core takes off what surrounds its terms. -/
theorem IsCore.isTight_trimmed {e : Expression} {lead body tail : Text} (h : IsCore e body)
    (start : Nat) (blank : IsBlank lead) (trailing : ∀ u ∈ tail, isTrailing u = true) :
    IsTight e (trimmed start (lead ++ (body ++ tail))).2 := by
  obtain ⟨gap, inner, more, rfl, blankGap, trailingMore, tight⟩ := h.exists_tight
  have regroup : lead ++ (gap ++ (inner ++ more) ++ tail) =
      (lead ++ gap) ++ (inner ++ (more ++ tail)) := by simp only [List.append_assoc]
  have before : IsBlank (lead ++ gap) := List.forall_mem_append.mpr ⟨blank, blankGap⟩
  have after : ∀ u ∈ more ++ tail, isTrailing u = true :=
    List.forall_mem_append.mpr ⟨trailingMore, trailing⟩
  rw [regroup, trimmed_around start before tight.head?_not_blank tight.ne_nil tight.ends after]
  exact tight

theorem IsTight.isEnclosed_eq {e : Expression} {inner : Text} (h : IsTight e inner) :
    isEnclosed inner = false := by
  obtain ⟨u, more, rfl, letter⟩ := h.begins
  have other : (u == ('(' : CodeUnit)) = false := by
    rw [beq_eq_false_iff_ne]
    rintro rfl
    exact absurd letter (by decide)
  rw [isEnclosed, other, Bool.false_and]

/-- Inside parentheses a core does not close them. -/
theorem IsCore.afterClosing?_eq {e : Expression} {body : Text} (h : IsCore e body) (rest : Text) :
    afterClosing? 1 (body ++ rest) = afterClosing? 1 rest := by
  cases h with
  | bare side => exact (IsBalanced.of_isSide side).afterClosing? (Int.le_refl 1) rest
  | @equation l r a b left right =>
      have other : equalsMark ≠ ')' := by decide
      rw [List.append_assoc, (IsBalanced.of_isSide left).afterClosing? (Int.le_refl 1),
        List.cons_append, afterClosing?, depthAfter_flat 1 (by decide) (by decide)]
      simp only [other, false_and, if_false]
      exact (IsBalanced.of_isSide right).afterClosing? (Int.le_refl 1) rest

theorem IsCore.isEnclosed_eq {e : Expression} {body : Text} (h : IsCore e body) :
    isEnclosed (openMark :: (body ++ [closeMark])) = true := by
  have closed : afterClosing? 1 (body ++ [closeMark]) = some [] := by
    rw [h.afterClosing?_eq]
    rfl
  rw [isEnclosed, closed]
  rfl

/-! ## Reading -/

/-- What is left of a text when its surroundings are taken off lies somewhere in it, and if that
    states an expression, so does the text. -/
theorem core_split (text : Text) :
    ∃ before after, text = before ++ ((core text).2 ++ after) ∧ (core text).1 = before.length ∧
      ∀ e, IsCore e (core text).2 → Spells e text := by
  obtain ⟨lead, tail, whole, blank, trailing, place⟩ := trimmed_split 0 text
  unfold core
  dsimp only
  split
  · next enclosed =>
      obtain ⟨inside, shape⟩ := exists_of_isEnclosed enclosed
      have stripped : ((trimmed 0 text).2.drop 1).dropLast = inside := by simp [shape]
      have parts : text = lead ++ openMark :: (inside ++ closeMark :: tail) := by
        rw [shape] at whole
        simpa using whole
      obtain ⟨gap, dots, inner, blankGap, dotted, placeInside⟩ :=
        trimmed_split ((trimmed 0 text).1 + 1) inside
      rw [stripped]
      generalize trimmed ((trimmed 0 text).1 + 1) inside = found at inner placeInside ⊢
      refine ⟨lead ++ openMark :: gap, dots ++ closeMark :: tail, ?_, ?_, ?_⟩
      · rw [parts, inner]
        simp only [List.append_assoc, List.cons_append]
      · rw [placeInside, place]
        simp only [List.length_append, List.length_cons]
        omega
      · intro e states
        rw [parts, inner]
        exact .enclosed blank (states.surround blankGap dotted) trailing
  · refine ⟨lead, tail, whole, by rw [place, Nat.zero_add], ?_⟩
    intro e states
    rw [whole]
    exact .plain blank states trailing

/-- The terms of a text that states an expression are found. -/
theorem Spells.isCore {e : Expression} {text : Text} (h : Spells e text) :
    IsCore e (core text).2 := by
  unfold Expression.core
  dsimp only
  cases h with
  | plain blank states trailing =>
      have tight := states.isTight_trimmed 0 blank trailing
      rw [tight.isEnclosed_eq]
      exact tight.core
  | @enclosed lead body tail blank states trailing =>
      have opens : ∀ u ∈ (openMark :: (body ++ [closeMark])).head?, isBlank u = false :=
        forall_mem_head?_cons (by decide) _
      have closes : ∀ u ∈ (openMark :: (body ++ [closeMark])).getLast?, isTrailing u = false := by
        intro u final
        rw [← List.cons_append, List.getLast?_concat] at final
        cases final
        decide
      have outside := trimmed_around 0 blank opens (List.cons_ne_nil _ _) closes trailing
      have parts : lead ++ openMark :: (body ++ closeMark :: tail) =
          lead ++ (openMark :: (body ++ [closeMark]) ++ tail) := by simp
      have stripped : ((openMark :: (body ++ [closeMark])).drop 1).dropLast = body := by simp
      have tight := states.isTight_trimmed (0 + lead.length + 1) isBlank_nil
        (List.forall_mem_nil _)
      rw [List.nil_append, List.append_nil] at tight
      rw [parts, outside, states.isEnclosed_eq, if_pos rfl, stripped]
      exact tight.core

section

variable {text before a b after : Text}
  (parts : text = before ++ (a ++ equalsMark :: b ++ after))
include parts

theorem readLeft_ok_iff (l : Term) :
    readBetween text before.length (before.length + a.length) = .ok l ↔ IsSide l a := by
  rw [parts, List.append_assoc]
  exact readBetween_ok_iff before _

theorem readRight_ok_iff (r : Term) :
    readBetween text (before.length + a.length + 1)
      (before.length + (a ++ equalsMark :: b).length) = .ok r ↔ IsSide r b := by
  have regroup : text = (before ++ a ++ [equalsMark]) ++ (b ++ after) := by simp [parts]
  have start : before.length + a.length + 1 = (before ++ a ++ [equalsMark]).length := by
    simp only [List.length_append, List.length_singleton]
  have stop : before.length + (a ++ equalsMark :: b).length =
      (before ++ a ++ [equalsMark]).length + b.length := by
    simp only [List.length_append, List.length_cons, List.length_nil]
    omega
  rw [regroup, start, stop]
  exact readBetween_ok_iff _ after

end

/-- Once the surroundings are taken off, an expression is read exactly when its core is left. -/
theorem read_ok_iff_isCore {e : Expression} {text before body after : Text}
    (parts : text = before ++ (body ++ after)) (found : core text = (before.length, body)) :
    read text = .ok e ↔ IsCore e body := by
  unfold read
  simp only [found]
  constructor
  · intro h
    cases sign : equalsIndex? 0 body with
    | none =>
        simp only [sign, map_ok_iff] at h
        obtain ⟨t, isRead, rfl⟩ := h
        rw [parts, readBetween_ok_iff] at isRead
        exact .bare isRead
    | some k =>
        obtain ⟨a, b, rfl, rfl⟩ := exists_of_equalsIndex? sign
        simp only [sign, bind_ok_iff, pure_ok_iff, readLeft_ok_iff parts,
          readRight_ok_iff parts] at h
        obtain ⟨l, left, r, right, rfl⟩ := h
        exact .equation left right
  · intro h
    cases h with
    | @bare t body side =>
        have sign := (IsBalanced.of_isSide side).equalsIndex? 0 []
        rw [List.append_nil] at sign
        simp only [sign, equalsIndex?, Option.map_none, map_ok_iff]
        rw [parts]
        exact ⟨t, (readBetween_ok_iff before after).mpr side, rfl⟩
    | @equation l r a b left right =>
        have sign : equalsIndex? 0 (a ++ equalsMark :: b) = some a.length := by
          rw [(IsBalanced.of_isSide left).equalsIndex?, equalsIndex?]
          simp [equalsMark]
        simp only [sign, bind_ok_iff, pure_ok_iff, readLeft_ok_iff parts, readRight_ok_iff parts]
        exact ⟨l, left, r, right, rfl⟩

/-- The texts that are read as an expression are those that spell it. -/
theorem read_ok_iff {e : Expression} {text : Text} : read text = .ok e ↔ Spells e text := by
  obtain ⟨before, after, parts, place, states⟩ := core_split text
  rw [read_ok_iff_isCore parts (Prod.ext place rfl)]
  exact ⟨states e, Spells.isCore⟩

/-! ## What an accepted text cannot hold -/

/-- An accepted text has no second equals sign. -/
theorem Spells.count_equalsMark_le {e : Expression} {text : Text} (h : Spells e text) :
    text.count equalsMark ≤ 1 := by
  have ofFlat {gap : Text} (flat : IsFlat gap) : gap.count equalsMark = 0 :=
    List.count_eq_zero.mpr (IsBalanced.flat flat).equalsMark_notMem
  have ofSide {t : Term} {side : Text} (h : IsSide t side) : side.count equalsMark = 0 :=
    List.count_eq_zero.mpr (IsBalanced.of_isSide h).equalsMark_notMem
  have ofCore {body : Text} (states : IsCore e body) : body.count equalsMark ≤ 1 := by
    cases states with
    | bare side => exact (ofSide side).le.trans (Nat.zero_le 1)
    | equation left right =>
        simp only [List.count_append, List.count_cons_self, ofSide left, ofSide right]
        exact Nat.le_refl 1
  cases h with
  | plain blank states trailing =>
      simp only [List.count_append, ofFlat (.of_isBlank blank), ofFlat (.of_isTrailing trailing),
        Nat.zero_add, Nat.add_zero]
      exact ofCore states
  | enclosed blank states trailing =>
      have notOpen : openMark ≠ equalsMark := by decide
      have notClose : closeMark ≠ equalsMark := by decide
      simp only [List.count_append, List.count_cons_of_ne notOpen, List.count_cons_of_ne notClose,
        ofFlat (.of_isBlank blank), ofFlat (.of_isTrailing trailing), Nat.zero_add, Nat.add_zero]
      exact ofCore states

theorem IsCore.skipBlanks_eq {e : Expression} {body : Text} (h : IsCore e body) (tail : Text) :
    ∃ u more, skipBlanks (body ++ tail) = u :: more ∧ isLetter u = true := by
  obtain ⟨gap, inner, after, rfl, blank, -, tight⟩ := h.exists_tight
  obtain ⟨u, more, rfl, letter⟩ := tight.begins
  have solid : isBlank u = false := isBlank_of_isLetter letter
  refine ⟨u, more ++ after ++ tail, ?_, letter⟩
  rw [List.append_assoc, skipBlanks_blank_append blank]
  simp [skipBlanks, solid]

/-- When an accepted text starts with a parenthesis, no second one follows, and after its partner
    there are only white space and periods. -/
theorem Spells.of_openMark {e : Expression} {text lead rest : Text} (h : Spells e text)
    (blank : IsBlank lead) (parts : text = lead ++ openMark :: rest) :
    (skipBlanks rest).head? ≠ some openMark ∧
      ∃ tail, afterClosing? 1 rest = some tail ∧ ∀ u ∈ tail, isTrailing u = true := by
  have notLetter : isLetter openMark = false := by decide
  have skipped : skipBlanks text = openMark :: rest := by
    rw [parts, skipBlanks_blank_append blank]
    rfl
  cases h with
  | @plain gap body tail blankGap states trailing =>
      obtain ⟨u, more, first, letter⟩ := states.skipBlanks_eq tail
      rw [skipBlanks_blank_append blankGap, first] at skipped
      obtain ⟨rfl, -⟩ := List.cons.inj skipped
      rw [notLetter] at letter
      cases letter
  | @enclosed gap body tail blankGap states trailing =>
      have same : openMark :: (body ++ closeMark :: tail) = openMark :: rest := by
        rw [← skipped, skipBlanks_blank_append blankGap]
        rfl
      obtain ⟨-, rfl⟩ := List.cons.inj same
      obtain ⟨u, more, first, letter⟩ := states.skipBlanks_eq (closeMark :: tail)
      refine ⟨?_, tail, ?_, trailing⟩
      · rw [first]
        rintro ⟨rfl⟩
        rw [notLetter] at letter
        cases letter
      · rw [states.afterClosing?_eq]
        rfl

section

variable {l r : Term} (hl : l.IsLettered) (hr : r.IsLettered)

theorem write_tptp (l r : Term) :
    (equation l r).write tptp = l.tptp ++ lit " " ++ equalsMark :: (lit " " ++ r.tptp) := by
  have sign : lit " = " = lit " " ++ equalsMark :: lit " " := rfl
  simp only [write, sign, List.append_assoc, List.cons_append]

include hl hr

/-- A printed equation starts and ends with its terms. -/
theorem isTight_write : IsTight (equation l r) ((equation l r).write tptp) := by
  have space : ∀ u ∈ lit " ", isTrailing u = true := isTrailing_of_isBlank isBlank_space
  have spellsRight := (spells_tptp hr).append_gap isBlank_space
  have left : IsSide l (l.tptp ++ lit " ") := ⟨_, _, rfl, spells_tptp hl, space⟩
  have right : IsSide r (lit " " ++ r.tptp) :=
    ⟨_, [], (List.append_nil _).symm, spellsRight, List.forall_mem_nil _⟩
  obtain ⟨u, more, first, letter⟩ := begins_tptp hl
  rw [write_tptp]
  refine ⟨.equation left right, ⟨u, _, by rw [first]; rfl, letter⟩, ?_⟩
  rw [List.append_cons]
  exact spellsRight.getLast_not_trailing _

/-- An equation reads back, with any periods after it. -/
theorem read_write {tail : Text} (trailing : ∀ u ∈ tail, isTrailing u = true) :
    read ((equation l r).write tptp ++ tail) = .ok (equation l r) :=
  read_ok_iff.mpr (.plain isBlank_nil (isTight_write hl hr).core trailing)

/-- An equation in parentheses reads back. -/
theorem read_enclosed :
    read (openMark :: ((equation l r).write tptp ++ [closeMark])) = .ok (equation l r) :=
  read_ok_iff.mpr (.enclosed isBlank_nil (isTight_write hl hr).core (List.forall_mem_nil _))

end

/-- A text is read as an expression exactly when it spells it, and every other text is malformed.
    No accepted text has a second equals sign or a second pair of parentheses around everything,
    or goes on after the parentheses. -/
theorem accepts_exactly (text : Text) :
    (∀ e, read text = .ok e ↔ Spells e text) ∧
      ((∀ e, ¬ Spells e text) → ∃ error, read text = .error error ∧
        (error.diagnostic : Diagnostic Details).code = .parse) ∧
      ∀ e, read text = .ok e → text.count equalsMark ≤ 1 ∧
        ∀ lead rest, IsBlank lead → text = lead ++ openMark :: rest →
          (skipBlanks rest).head? ≠ some openMark ∧
            ∃ tail, afterClosing? 1 rest = some tail ∧ ∀ u ∈ tail, isTrailing u = true := by
  refine ⟨fun e => read_ok_iff, ?_, ?_⟩
  · intro none
    cases outcome : read text with
    | error error =>
        refine ⟨error, rfl, ?_⟩
        cases error <;> rfl
    | ok e => exact absurd (read_ok_iff.mp outcome) (none e)
  · intro e isRead
    have spells := read_ok_iff.mp isRead
    exact ⟨spells.count_equalsMark_le, fun lead rest blank parts => spells.of_openMark blank parts⟩

/-- An equation in parentheses with periods in and after them is read; a variable in two pairs of
    parentheses is malformed. -/
theorem accepts_exactly_parentheses :
    Spells (.equation (.op (.var (lit "x")) (.var (lit "y"))) (.var (lit "op")))
        (lit " ( op(x ,y) . = op ) .") ∧
      (∀ e, ¬ Spells e (lit "( (x))")) ∧
      ∃ error, read (lit "( (x))") = .error error ∧
        (error.diagnostic : Diagnostic Details).code = .parse := by
  have isRead : read (lit " ( op(x ,y) . = op ) .") =
      .ok (.equation (.op (.var (lit "x")) (.var (lit "y"))) (.var (lit "op"))) :=
    toOption_eq_some_iff.mp (by decide +kernel)
  obtain ⟨accepts, -, -⟩ := accepts_exactly (lit " ( op(x ,y) . = op ) .")
  obtain ⟨acceptsTwice, rejects, once⟩ := accepts_exactly (lit "( (x))")
  have none : ∀ e, ¬ Spells e (lit "( (x))") := by
    intro e spells
    obtain ⟨-, opened⟩ := once e ((acceptsTwice e).mpr spells)
    obtain ⟨notTwice, -⟩ := opened [] (lit " (x))") isBlank_nil rfl
    exact notTwice rfl
  exact ⟨(accepts _).mp isRead, none, rejects none⟩

end Expression

end MagmaTrace
