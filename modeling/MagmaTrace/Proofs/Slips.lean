import MagmaTrace.Diagnostic.Hint
import MagmaTrace.Proofs.Language

/-! # Slips and hints

A hint names the first of six slips that a text has, so what each test finds is stated first, as
places at which the text can be cut. In an orderly text, where every operation is closed and has a
second operand, every mark is in its place, so that there is no slip but perhaps a second equals
sign (`Hint.find?_of_isPlaced`). Orderly are the texts that are read as expressions, which get no
hint (`Hint.find?_of_read`), and printed expressions whatever their variables are called
(`Hint.find?_write`).
-/

namespace MagmaTrace

open Text

namespace Hint

open Term Expression

/-! ## What the tests find -/

theorem startsWord_iff {before : Text} :
    (!(before.getLast?.or none).any isWord) = true ↔ StartsWord before := by
  rw [Option.or_none, Bool.not_eq_true', Option.any_eq_false]
  exact Iff.rfl

/-- A search for what stands after some beginning. -/
theorem holdsAfter_iff (lead : Text) {text : Text} {p : Text → Bool} :
    holdsSomewhere (fun _ here => (strip? lead here).any p) none text = true ↔
      ∃ before rest, text = before ++ (lead ++ rest) ∧ p rest = true := by
  rw [holdsSomewhere_iff]
  simp only [Option.any_eq_true, strip?_eq_some]
  constructor
  · rintro ⟨before, _, rfl, rest, rfl, found⟩
    exact ⟨before, rest, rfl, found⟩
  · rintro ⟨before, rest, rfl, found⟩
    exact ⟨before, _, rfl, rest, rfl, found⟩

/-- A search for what stands after some word. -/
theorem holdsAfterWord_iff {lead text : Text} {p : Text → Bool} :
    holdsSomewhere (fun before here => !before.any isWord && (strip? lead here).any p) none text =
        true ↔
      ∃ before rest, text = before ++ (lead ++ rest) ∧ StartsWord before ∧ p rest = true := by
  rw [holdsSomewhere_iff]
  simp only [Bool.and_eq_true, startsWord_iff, Option.any_eq_true, strip?_eq_some]
  constructor
  · rintro ⟨before, _, rfl, starts, rest, rfl, found⟩
    exact ⟨before, rest, rfl, starts, found⟩
  · rintro ⟨before, rest, rfl, starts, found⟩
    exact ⟨before, _, rfl, starts, rest, rfl, found⟩

theorem startsWith_iff {mark : CodeUnit} {text : Text} :
    startsWith [mark] text = true ↔ ∃ rest, text = mark :: rest := by
  simp only [startsWith, Option.isSome_iff_exists, strip?_eq_some, List.singleton_append]

theorem hasSpacedOperation_iff {text : Text} : hasSpacedOperation text = true ↔
    ∃ before gap rest, text = before ++ (lit "op" ++ (gap ++ openMark :: rest)) ∧
      StartsWord before ∧ gap ≠ [] ∧ IsBlank gap := by
  have test : hasSpacedOperation text = holdsSomewhere (fun before here =>
      !before.any isWord && ((strip? (lit "op") here).bind skipSomeBlanks?).any
        (startsWith [openMark])) none text := rfl
  simp only [test, Option.any_bind, holdsAfterWord_iff, Function.comp_apply, Option.any_eq_true,
    skipSomeBlanks?_eq_some, startsWith_iff]
  constructor
  · rintro ⟨before, _, rfl, starts, _, ⟨gap, rfl, nonempty, blank, -⟩, rest, rfl⟩
    exact ⟨before, gap, rest, rfl, starts, nonempty, blank⟩
  · rintro ⟨before, gap, rest, rfl, starts, nonempty, blank⟩
    have stop : ∀ u ∈ (openMark :: rest).head?, isBlank u = false :=
      forall_mem_head?_cons (by decide) rest
    exact ⟨before, _, rfl, starts, _, ⟨gap, rfl, nonempty, blank, stop⟩, rest, rfl⟩

/-- Units other than commas and parentheses. -/
def isUnmarked (u : CodeUnit) : Bool := u != comma && u != openMark && u != closeMark

/-- A text without commas and parentheses. -/
def IsUnmarked (text : Text) : Prop := ∀ u ∈ text, isUnmarked u = true

instance (text : Text) : Decidable (IsUnmarked text) := List.decidableBAll _ text

theorem hasLoneArgument_iff {text : Text} : hasLoneArgument text = true ↔
    ∃ before inside rest, text = before ++ (opening ++ (inside ++ closeMark :: rest)) ∧
      StartsWord before ∧ IsUnmarked inside := by
  have test : hasLoneArgument text = holdsSomewhere (fun before here =>
      !before.any isWord && (strip? opening here).any fun inside => startsWith [closeMark]
        (inside.dropWhile isUnmarked)) none text := rfl
  simp only [test, holdsAfterWord_iff, startsWith_iff, dropWhile_eq_cons_iff]
  constructor
  · rintro ⟨before, _, rfl, starts, rest, inside, rfl, unmarked, -⟩
    exact ⟨before, inside, rest, rfl, starts, unmarked⟩
  · rintro ⟨before, inside, rest, rfl, starts, unmarked⟩
    exact ⟨before, _, rfl, starts, rest, inside, rfl, unmarked, by decide⟩

theorem hasUnclosed_iff {text : Text} : hasUnclosed text = true ↔
    ∃ before rest, text = before ++ openMark :: rest ∧ closeMark ∉ rest := by
  have test : hasUnclosed text = holdsSomewhere (fun _ here =>
      (strip? [openMark] here).any fun rest => !rest.contains closeMark) none text := rfl
  simp only [test, holdsAfter_iff, List.singleton_append, Bool.not_eq_true', List.contains_eq_mem,
    decide_eq_false_iff_not]

theorem hasUnopened_iff {text : Text} : hasUnopened text = true ↔
    ∃ before rest, text = before ++ closeMark :: rest ∧ openMark ∉ before := by
  have test : hasUnopened text = (text.takeWhile (· != openMark)).contains closeMark := rfl
  rw [test, List.contains_iff_mem, mem_takeWhile_iff (by decide)]
  simp only [bne_iff_ne, ne_eq, List.forall_mem_ne']

theorem hasTwoEquals_iff {text : Text} : hasTwoEquals text = true ↔
    ∃ before line rest, text = before ++ equalsMark :: (line ++ equalsMark :: rest) ∧
      ∀ u ∈ line, isLineEnd u = false := by
  have test : hasTwoEquals text = holdsSomewhere (fun _ here =>
      (strip? [equalsMark] here).any fun rest =>
        (rest.takeWhile (!isLineEnd ·)).contains equalsMark) none text := rfl
  simp only [test, holdsAfter_iff, List.singleton_append, List.contains_iff_mem,
    mem_takeWhile_iff (p := (!isLineEnd ·)) (x := equalsMark) (by decide), Bool.not_eq_true']
  constructor
  · rintro ⟨before, _, rfl, line, rest, rfl, unbroken⟩
    exact ⟨before, line, rest, rfl, unbroken⟩
  · rintro ⟨before, line, rest, rfl, unbroken⟩
    exact ⟨before, _, rfl, line, rest, rfl, unbroken⟩

theorem hasEmptyArgument_iff {text : Text} : hasEmptyArgument text = true ↔
    ∃ before gap mark rest, text = before ++ comma :: (gap ++ mark :: rest) ∧ IsBlank gap ∧
      (mark = comma ∨ mark = closeMark) := by
  refine (holdsAfter_iff [comma]).trans ?_
  constructor
  · rintro ⟨before, rest, rfl, found⟩
    split at found
    · next mark more left =>
        obtain ⟨gap, rfl, blank, -⟩ := dropWhile_eq_cons_iff.mp left
        rw [Bool.or_eq_true, beq_iff_eq, beq_iff_eq] at found
        exact ⟨before, gap, mark, more, rfl, blank, found⟩
    · cases found
  · rintro ⟨before, gap, mark, rest, rfl, blank, isMark⟩
    have solid : isBlank mark = false := by rcases isMark with rfl | rfl <;> decide
    have left : skipBlanks (gap ++ mark :: rest) = mark :: rest :=
      dropWhile_eq_cons_iff.mpr ⟨gap, rfl, blank, solid⟩
    refine ⟨before, gap ++ mark :: rest, rfl, ?_⟩
    rw [left, Bool.or_eq_true, beq_iff_eq, beq_iff_eq]
    exact isMark

/-! ## Orderly texts -/

theorem isUnmarked_of {p : CodeUnit → Bool}
    (others : p comma = false ∧ p openMark = false ∧ p closeMark = false) {u : CodeUnit}
    (h : p u = true) : isUnmarked u = true := by
  obtain ⟨notComma, notOpen, notClose⟩ := others
  simp only [isUnmarked, Bool.and_eq_true, bne_iff_ne]
  refine ⟨⟨?_, ?_⟩, ?_⟩ <;>
  · rintro rfl
    simp_all

theorem isUnmarked_of_isBlank {u : CodeUnit} (blank : isBlank u = true) : isUnmarked u = true :=
  isUnmarked_of (by decide) blank

/-- A text of operations, in which every operation is closed and has a second operand, with other
    text between them that has no commas and parentheses. -/
inductive IsOrderly : Text → Prop where
  | unmarked {text : Text} (h : IsUnmarked text) : IsOrderly text
  | append {a b : Text} (ha : IsOrderly a) (hb : IsOrderly b) : IsOrderly (a ++ b)
  | operation {a b : Text} (ha : IsOrderly a) (hb : IsOrderly b) (second : ¬ IsBlank b) :
      IsOrderly (opening ++ (a ++ comma :: (b ++ [closeMark])))

/-- If there is any mark in an orderly text, the first opens an operation. -/
theorem IsOrderly.first_mark {text : Text} (h : IsOrderly text) : IsUnmarked text ∨
    ∃ inside more, text = inside ++ openMark :: more ∧ IsUnmarked inside := by
  induction h with
  | unmarked h => exact .inl h
  | @append a b ha hb iha ihb =>
      rcases iha with unmarked | ⟨inside, more, rfl, unmarked⟩
      · rcases ihb with unmarked' | ⟨inside, more, rfl, unmarked'⟩
        · exact .inl (List.forall_mem_append.mpr ⟨unmarked, unmarked'⟩)
        · exact .inr ⟨a ++ inside, more, (List.append_assoc ..).symm,
            List.forall_mem_append.mpr ⟨unmarked, unmarked'⟩⟩
      · exact .inr ⟨inside, more ++ b, by simp, unmarked⟩
  | operation => exact .inr ⟨lit "op", _, rfl, by decide⟩

/-- An orderly text before a comma does not put a closing parenthesis first. -/
theorem IsOrderly.ne_closing {a : Text} (h : IsOrderly a) {inside : Text}
    (unmarked : IsUnmarked inside) (more rest : Text) :
    a ++ comma :: more ≠ inside ++ closeMark :: rest := by
  intro same
  rcases h.first_mark with unmarked' | ⟨inside', more', rfl, unmarked'⟩
  · exact absurd (eq_of_runs same unmarked' unmarked (by decide) (by decide)) (by decide)
  · rw [List.append_assoc, List.cons_append] at same
    exact absurd (eq_of_runs same unmarked' unmarked (by decide) (by decide)) (by decide)

/-- An orderly text that is not blank does not start with a mark that leaves out an operand. -/
theorem IsOrderly.ne_empty {b : Text} (h : IsOrderly b) (second : ¬ IsBlank b) {gap : Text}
    (blank : IsBlank gap) {mark : CodeUnit} (isMark : mark = comma ∨ mark = closeMark)
    (more rest : Text) : b ++ more ≠ gap ++ mark :: rest := by
  intro same
  have unmarked : IsUnmarked gap := fun u mem => isUnmarked_of_isBlank (blank u mem)
  have marked : isUnmarked mark = false := by rcases isMark with rfl | rfl <;> decide
  have solid : isBlank mark = false := by rcases isMark with rfl | rfl <;> decide
  rcases h.first_mark with unmarked' | ⟨inside, more', rfl, unmarked'⟩
  · cases left : skipBlanks b with
    | nil => exact second (List.dropWhile_eq_nil_iff.mp left)
    | cons v more' =>
        obtain ⟨gap', rfl, blank', solid'⟩ := dropWhile_eq_cons_iff.mp left
        rw [List.append_assoc, List.cons_append] at same
        obtain rfl := eq_of_runs same blank' blank solid' solid
        rw [unmarked' v (by simp)] at marked
        cases marked
  · rw [List.append_assoc, List.cons_append] at same
    rw [← eq_of_runs same unmarked' unmarked (by decide) marked] at isMark
    exact absurd isMark (by decide)

/-- A mark is where no test takes offence at it, with what stands before and after it. -/
structure IsPlaced (before : Text) (u : CodeUnit) (after : Text) : Prop where
  opened : u = openMark → IsBlank before ∨ ∃ front, before = front ++ lit "op"
  operands : u = openMark → ¬ IsBlank before →
    ∀ inside rest, IsUnmarked inside → after ≠ inside ++ closeMark :: rest
  closed : u = openMark → closeMark ∈ after
  opener : u = closeMark → openMark ∈ before
  second : u = comma → ∀ gap mark rest, IsBlank gap → mark = comma ∨ mark = closeMark →
    after ≠ gap ++ mark :: rest

theorem isPlaced_unmarked {text : Text} (h : IsUnmarked text) (before after : Text) :
    Throughout IsPlaced before text after := by
  rintro a u b rfl
  have plain : isUnmarked u = true := h u (by simp)
  simp only [isUnmarked, Bool.and_eq_true, bne_iff_ne] at plain
  obtain ⟨⟨notComma, notOpen⟩, notClose⟩ := plain
  exact ⟨fun same => absurd same notOpen, fun same => absurd same notOpen,
    fun same => absurd same notOpen, fun same => absurd same notClose,
    fun same => absurd same notComma⟩

theorem isPlaced_openMark {before after : Text}
    (opened : IsBlank before ∨ ∃ front, before = front ++ lit "op")
    (operands : ¬ IsBlank before →
      ∀ inside rest, IsUnmarked inside → after ≠ inside ++ closeMark :: rest)
    (closed : closeMark ∈ after) : IsPlaced before openMark after :=
  ⟨fun _ => opened, fun _ => operands, fun _ => closed, fun same => absurd same (by decide),
    fun same => absurd same (by decide)⟩

theorem isPlaced_closeMark {before : Text} (opener : openMark ∈ before) (after : Text) :
    IsPlaced before closeMark after :=
  ⟨fun same => absurd same (by decide), fun same => absurd same (by decide),
    fun same => absurd same (by decide), fun _ => opener, fun same => absurd same (by decide)⟩

theorem isPlaced_comma {after : Text} (before : Text)
    (second : ∀ gap mark rest, IsBlank gap → mark = comma ∨ mark = closeMark →
      after ≠ gap ++ mark :: rest) : IsPlaced before comma after :=
  ⟨fun same => absurd same (by decide), fun same => absurd same (by decide),
    fun same => absurd same (by decide), fun same => absurd same (by decide), fun _ => second⟩

/-- In an orderly text every mark is in its place, whatever is around the text. -/
theorem IsOrderly.isPlaced {text : Text} (h : IsOrderly text) (before after : Text) :
    Throughout IsPlaced before text after := by
  induction h generalizing before after with
  | unmarked h => exact isPlaced_unmarked h before after
  | append ha hb iha ihb => exact throughout_append.mpr ⟨iha _ _, ihb _ _⟩
  | @operation a b ha hb second iha ihb =>
      have parts : opening ++ (a ++ comma :: (b ++ [closeMark])) =
          lit "op" ++ openMark :: (a ++ comma :: (b ++ [closeMark])) := rfl
      rw [parts]
      simp only [throughout_append, throughout_cons, List.append_assoc, List.cons_append,
        List.nil_append]
      refine ⟨isPlaced_unmarked (by decide) _ _, ?_, iha _ _, ?_, ihb _ _, ?_, ?_⟩
      · exact isPlaced_openMark (.inr ⟨before, rfl⟩)
          (fun _ inside rest unmarked => ha.ne_closing unmarked _ rest) (by simp)
      · exact isPlaced_comma _ fun gap mark rest blank isMark =>
          hb.ne_empty second blank isMark _ rest
      · exact isPlaced_closeMark (by simp) _
      · exact isPlaced_unmarked (List.forall_mem_nil _) _ _

/-- Parentheses around an orderly text are in their places at the start of a text. -/
theorem IsOrderly.isPlaced_enclosed {lead body tail : Text} (h : IsOrderly body)
    (blank : IsBlank lead) (unmarked : IsUnmarked tail) :
    Throughout IsPlaced [] (lead ++ openMark :: (body ++ closeMark :: tail)) [] := by
  simp only [throughout_append, throughout_cons, List.append_nil, List.nil_append]
  refine ⟨isPlaced_unmarked (fun u mem => isUnmarked_of_isBlank (blank u mem)) _ _, ?_,
    h.isPlaced _ _, ?_, isPlaced_unmarked unmarked _ _⟩
  · exact isPlaced_openMark (.inl blank) (fun other => absurd blank other) (by simp)
  · exact isPlaced_closeMark (by simp) _

theorem not_isBlank_operation (before after : Text) :
    ¬ IsBlank (before ++ (lit "op" ++ after)) := by
  intro blank
  have letter : ('o' : CodeUnit) ∈ before ++ (lit "op" ++ after) :=
    List.mem_append_right _ (List.mem_append_left _ (by decide))
  exact absurd (blank _ letter) (by decide)

section

variable {text : Text} (placed : Throughout IsPlaced [] text [])
include placed

theorem hasSpacedOperation_of_isPlaced : hasSpacedOperation text = false := by
  rw [Bool.eq_false_iff, ne_eq, hasSpacedOperation_iff]
  rintro ⟨before, gap, rest, split, -, nonempty, blank⟩
  have here := placed (before ++ (lit "op" ++ gap)) openMark rest (by simp [split])
  rw [List.nil_append] at here
  rcases here.opened rfl with allBlank | ⟨front, same⟩
  · exact not_isBlank_operation before gap allBlank
  · have named : lit "op" = ([('o' : CodeUnit)] ++ [('p' : CodeUnit)] : Text) := rfl
    obtain ⟨gap, v, rfl⟩ := (List.eq_nil_or_concat gap).resolve_left nonempty
    have last := congrArg List.getLast? same
    rw [List.concat_eq_append, ← List.append_assoc, ← List.append_assoc, List.getLast?_concat,
      named, ← List.append_assoc, List.getLast?_concat] at last
    have isBlank := blank v (by simp)
    rw [Option.some.inj last] at isBlank
    exact absurd isBlank (by decide)

theorem hasLoneArgument_of_isPlaced : hasLoneArgument text = false := by
  rw [Bool.eq_false_iff, ne_eq, hasLoneArgument_iff]
  rintro ⟨before, inside, rest, split, -, unmarked⟩
  have here := placed (before ++ lit "op") openMark (inside ++ closeMark :: rest) (by
    rw [split, List.append_assoc]
    rfl)
  rw [List.nil_append, List.append_nil] at here
  refine here.operands rfl ?_ inside rest unmarked rfl
  have notBlank := not_isBlank_operation before []
  rwa [List.append_nil] at notBlank

theorem hasUnclosed_of_isPlaced : hasUnclosed text = false := by
  rw [Bool.eq_false_iff, ne_eq, hasUnclosed_iff]
  rintro ⟨before, rest, split, unclosed⟩
  have here := placed before openMark rest split
  rw [List.append_nil] at here
  exact unclosed (here.closed rfl)

theorem hasUnopened_of_isPlaced : hasUnopened text = false := by
  rw [Bool.eq_false_iff, ne_eq, hasUnopened_iff]
  rintro ⟨before, rest, split, unopened⟩
  exact unopened ((placed before closeMark rest split).opener rfl)

theorem hasEmptyArgument_of_isPlaced : hasEmptyArgument text = false := by
  rw [Bool.eq_false_iff, ne_eq, hasEmptyArgument_iff]
  rintro ⟨before, gap, mark, rest, split, blank, isMark⟩
  have here := placed before comma _ split
  rw [List.append_nil] at here
  exact here.second rfl gap mark rest blank isMark rfl

/-- The only slip there can be when every mark is in its place. -/
theorem find?_of_isPlaced : find? text = if hasTwoEquals text then
    some (lit "Only one top-level '=' is allowed per expression") else none := by
  cases equals : hasTwoEquals text <;>
  simp [find?, slips, equals, hasSpacedOperation_of_isPlaced placed,
    hasLoneArgument_of_isPlaced placed, hasUnclosed_of_isPlaced placed,
    hasUnopened_of_isPlaced placed, hasEmptyArgument_of_isPlaced placed]

end

/-! ## Texts of expressions -/

theorem isUnmarked_of_isWord {u : CodeUnit} (word : isWord u = true) : isUnmarked u = true :=
  isUnmarked_of (by decide) word

theorem isUnmarked_of_isTrailing {u : CodeUnit} (h : isTrailing u = true) : isUnmarked u = true :=
  isUnmarked_of (by decide) h

theorem IsOrderly.of_isName {name : Text} (h : IsName name) : IsOrderly name :=
  .unmarked fun u mem => isUnmarked_of_isWord (h.isWord_of_mem u mem)

theorem IsOrderly.of_isTrailing {tail : Text} (h : ∀ u ∈ tail, isTrailing u = true) :
    IsOrderly tail :=
  .unmarked fun u mem => isUnmarked_of_isTrailing (h u mem)

theorem IsOrderly.of_isBlank {gap : Text} (blank : IsBlank gap) : IsOrderly gap :=
  .unmarked fun u mem => isUnmarked_of_isBlank (blank u mem)

theorem not_isBlank_of_mem {text : Text} {u : CodeUnit} (mem : u ∈ text)
    (solid : isBlank u = false) : ¬ IsBlank text := by
  intro blank
  rw [blank u mem] at solid
  cases solid

theorem not_isBlank_tptp {t : Term} (named : t.IsNamed) : ¬ IsBlank t.tptp := by
  cases t with
  | var name =>
      have isName : IsName name := named name (List.mem_singleton_self name)
      cases name with
      | nil => exact isName.elim
      | cons u more =>
          exact not_isBlank_of_mem List.mem_cons_self (isName.isSolid u List.mem_cons_self)
  | op left right =>
      rw [tptp_op]
      exact not_isBlank_operation [] _

/-- A printed term is orderly. -/
theorem IsOrderly.of_tptp {t : Term} (named : t.IsNamed) : IsOrderly t.tptp := by
  induction t with
  | var name => exact .of_isName (named name (List.mem_singleton_self name))
  | op left right ihl ihr =>
      rw [tptp_op]
      exact .operation (ihl named.left) (ihr named.right) (not_isBlank_tptp named.right)

/-- However a term is spelled, the text is orderly. -/
theorem IsOrderly.of_spells {t : Term} {spelling : Text} (h : t.Spells spelling) :
    IsOrderly spelling := by
  induction h with
  | var blank isName => exact .append (.of_isBlank blank) (.of_isName isName.isName)
  | @op left right gap a toComma b toClose blank hl blankComma hr blankClose ihl ihr =>
      have second : ¬ IsBlank (b ++ toClose) := by
        obtain ⟨⟨inner, u, more, rfl, -, letter, -⟩, -⟩ := hr.ends
        exact not_isBlank_of_mem (by simp) (isBlank_of_isLetter letter)
      have parts :
          gap ++ (opening ++ (a ++ (toComma ++ comma :: (b ++ (toClose ++ [closeMark]))))) =
          gap ++ (opening ++ ((a ++ toComma) ++ comma :: ((b ++ toClose) ++ [closeMark]))) := by
        simp only [List.append_assoc]
      rw [parts]
      exact .append (.of_isBlank blank) (.operation (.append ihl (.of_isBlank blankComma))
        (.append ihr (.of_isBlank blankClose)) second)

theorem IsOrderly.of_isSide {t : Term} {text : Text} (h : IsSide t text) : IsOrderly text := by
  obtain ⟨spelling, tail, rfl, spells, trailing⟩ := h
  exact .append (.of_spells spells) (.of_isTrailing trailing)

/-- Two orderly sides with an equals sign between them are orderly. -/
theorem IsOrderly.equation {a b : Text} (ha : IsOrderly a) (hb : IsOrderly b) :
    IsOrderly (a ++ equalsMark :: b) := by
  have sign : IsUnmarked [equalsMark] := by decide
  exact .append ha (.append (.unmarked sign) hb)

theorem IsOrderly.of_isCore {e : Expression} {text : Text} (h : IsCore e text) :
    IsOrderly text := by
  cases h with
  | bare side => exact .of_isSide side
  | equation left right => exact (IsOrderly.of_isSide left).equation (.of_isSide right)

theorem isPlaced_of_spells {e : Expression} {text : Text} (h : e.Spells text) :
    Throughout IsPlaced [] text [] := by
  cases h with
  | plain blank core trailing =>
      have whole := IsOrderly.append (.of_isBlank blank)
        (.append (.of_isCore core) (.of_isTrailing trailing))
      exact whole.isPlaced [] []
  | enclosed blank core trailing =>
      exact (IsOrderly.of_isCore core).isPlaced_enclosed blank
        fun u mem => isUnmarked_of_isTrailing (trailing u mem)

theorem hasTwoEquals_of_count {text : Text} (once : text.count equalsMark ≤ 1) :
    hasTwoEquals text = false := by
  rw [Bool.eq_false_iff, ne_eq, hasTwoEquals_iff]
  rintro ⟨before, line, rest, rfl, -⟩
  simp only [List.count_append, List.count_cons_self] at once
  omega

/-- A text that is read as an expression gets no hint. -/
theorem find?_of_read {e : Expression} {text : Text} (h : Expression.read text = .ok e) :
    find? text = none := by
  have spells := read_ok_iff.mp h
  rw [find?_of_isPlaced (isPlaced_of_spells spells),
    hasTwoEquals_of_count spells.count_equalsMark_le]
  rfl

/-! ## Printed expressions -/

theorem equalsMark_notMem_tptp {t : Term} (named : t.IsNamed) : equalsMark ∉ t.tptp := by
  intro mem
  rcases mem_tptp mem with ⟨name, among, inside⟩ | marks
  · exact absurd ((named name among).isWord_of_mem _ inside) (by decide)
  · exact absurd marks (by decide)

theorem isLineEnd_tptp {t : Term} (named : t.IsNamed) {u : CodeUnit} (mem : u ∈ t.tptp) :
    isLineEnd u = false := by
  rcases mem_tptp mem with ⟨name, among, inside⟩ | marks
  · exact isLineEnd_of_not_isBlank ((named name among).isSolid u inside)
  · have unbroken : (lit "op(,)").all (!isLineEnd ·) = true := by decide
    simpa using List.all_eq_true.mp unbroken u marks

theorem IsOrderly.of_write {e : Expression} (named : ∀ name ∈ e.names, IsName name) :
    IsOrderly (e.write tptp) := by
  cases e with
  | bare t => exact .of_tptp named
  | equation l r =>
      obtain ⟨namedLeft, namedRight⟩ := List.forall_mem_append.mp named
      have space : IsOrderly (lit " ") := .of_isBlank isBlank_space
      rw [write_tptp]
      exact (IsOrderly.append (.of_tptp namedLeft) space).equation
        (.append space (.of_tptp namedRight))

theorem count_equalsMark_write {e : Expression} (named : ∀ name ∈ e.names, IsName name) :
    (e.write tptp).count equalsMark ≤ 1 := by
  cases e with
  | bare t =>
      have none := List.count_eq_zero.mpr (equalsMark_notMem_tptp (t := t) named)
      exact none.le.trans (Nat.zero_le 1)
  | equation l r =>
      obtain ⟨namedLeft, namedRight⟩ := List.forall_mem_append.mp named
      have left := List.count_eq_zero.mpr (equalsMark_notMem_tptp namedLeft)
      have right := List.count_eq_zero.mpr (equalsMark_notMem_tptp namedRight)
      have space : (lit " ").count equalsMark = 0 := by decide
      rw [write_tptp]
      simp only [List.count_append, List.count_cons_self, left, right, space]
      exact Nat.le_refl 1

/-- Neither a printed expression gets a hint nor one in parentheses with a period after it. The
    tests do look at such texts: a third side gets a hint. -/
theorem find?_write {e : Expression} (named : ∀ name ∈ e.names, IsName name) :
    find? (e.write tptp) = none ∧
    find? (lit "(" ++ e.write tptp ++ lit ").") = none ∧
    ∀ l r third : Term, e = .equation l r → third.IsNamed →
      find? (e.write tptp ++ lit " = " ++ third.tptp) =
        some (lit "Only one top-level '=' is allowed per expression") := by
  have orderly := IsOrderly.of_write named
  have once := count_equalsMark_write named
  refine ⟨?_, ?_, ?_⟩
  · rw [find?_of_isPlaced (orderly.isPlaced [] []), hasTwoEquals_of_count once]
    rfl
  · have parts : lit "(" ++ e.write tptp ++ lit ")." =
        [] ++ openMark :: (e.write tptp ++ closeMark :: lit ".") := by
      rw [List.nil_append, List.append_assoc]
      rfl
    have placed := orderly.isPlaced_enclosed isBlank_nil (by decide : IsUnmarked (lit "."))
    have onceAround : (lit "(" ++ e.write tptp ++ lit ").").count equalsMark ≤ 1 := by
      have opens : (lit "(").count equalsMark = 0 := by decide
      have closes : (lit ").").count equalsMark = 0 := by decide
      rwa [List.count_append, List.count_append, opens, closes, Nat.zero_add, Nat.add_zero]
    rw [← parts] at placed
    rw [find?_of_isPlaced placed, hasTwoEquals_of_count onceAround]
    rfl
  · rintro l r third rfl namedThird
    obtain ⟨namedLeft, namedRight⟩ := List.forall_mem_append.mp named
    have space : IsOrderly (lit " ") := .of_isBlank isBlank_space
    have sign : lit " = " = lit " " ++ equalsMark :: lit " " := rfl
    have parts : (equation l r).write tptp ++ lit " = " ++ third.tptp =
        (equation l r).write tptp ++ lit " " ++ equalsMark :: (lit " " ++ third.tptp) := by
      rw [sign]
      simp only [List.append_assoc, List.cons_append]
    have longer : IsOrderly ((equation l r).write tptp ++ lit " = " ++ third.tptp) := by
      rw [parts]
      exact (orderly.append space).equation (space.append (.of_tptp namedThird))
    have twice : hasTwoEquals ((equation l r).write tptp ++ lit " = " ++ third.tptp) = true := by
      refine hasTwoEquals_iff.mpr ⟨l.tptp ++ lit " ", lit " " ++ r.tptp ++ lit " ",
        lit " " ++ third.tptp, ?_, ?_⟩
      · rw [parts, write_tptp]
        simp only [List.append_assoc, List.cons_append]
      · have blank : ∀ u ∈ lit " ", isLineEnd u = false :=
          List.forall_mem_singleton.mpr (by decide)
        exact List.forall_mem_append.mpr ⟨List.forall_mem_append.mpr
          ⟨blank, fun u mem => isLineEnd_tptp namedRight mem⟩, blank⟩
    rw [find?_of_isPlaced (longer.isPlaced [] []), twice]
    rfl

/-- An equation with variables that are called like the operation. -/
theorem find?_write_operationNames :
    let e : Expression := .equation
      (.op (.var (lit "op")) (.op (.var (lit "x")) (.var (lit "op")))) (.var (lit "op"))
    (∀ name ∈ e.names, IsName name) ∧ (Term.var (lit "_x")).IsNamed ∧
      find? (lit "op(op,op(x,op)) = op") = none ∧
      find? (lit "(op(op,op(x,op)) = op).") = none ∧
      find? (lit "op(op,op(x,op)) = op = _x") =
        some (lit "Only one top-level '=' is allowed per expression") := by
  intro e
  have named : ∀ name ∈ e.names, IsName name := by decide
  have namedThird : (Term.var (lit "_x")).IsNamed := by decide
  obtain ⟨plain, enclosed, longer⟩ := find?_write named
  exact ⟨named, namedThird, plain, enclosed, longer _ _ _ rfl namedThird⟩

end Hint
end MagmaTrace
