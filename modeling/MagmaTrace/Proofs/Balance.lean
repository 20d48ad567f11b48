import MagmaTrace.Expression
import MagmaTrace.Proofs.Offsets

/-! # Matching parentheses

The searches for an equals sign outside parentheses and for the partner of a parenthesis count
depth. A text in which parentheses match brings the depth back to where it was, so both searches
pass over it; a spelled term is such a text.
-/

namespace MagmaTrace

open Text

namespace Expression

open Term

/-- The sign between the sides of an equation. -/
def equalsMark : CodeUnit := '='

/-- Units that are no parentheses and no equals sign. -/
def IsFlat (text : Text) : Prop := ∀ u ∈ text, u ≠ openMark ∧ u ≠ closeMark ∧ u ≠ equalsMark

instance (text : Text) : Decidable (IsFlat text) := List.decidableBAll _ text

theorem IsFlat.of_isTrailing {tail : Text} (trailing : ∀ u ∈ tail, isTrailing u = true) :
    IsFlat tail := by
  intro u mem
  have isTrailing := trailing u mem
  refine ⟨?_, ?_, ?_⟩ <;>
  · rintro rfl
    exact absurd isTrailing (by decide)

theorem IsFlat.of_isBlank {gap : Text} (blank : IsBlank gap) : IsFlat gap :=
  .of_isTrailing (isTrailing_of_isBlank blank)

theorem IsFlat.of_isIdentifier {name : Text} (h : IsIdentifier name) : IsFlat name := by
  intro u mem
  have word := h.isName.isWord_of_mem u mem
  refine ⟨?_, ?_, ?_⟩ <;>
  · rintro rfl
    exact absurd word (by decide)

/-- A text in which parentheses are matched and no equals sign stands. -/
inductive IsBalanced : Text → Prop where
  | flat {text : Text} (h : IsFlat text) : IsBalanced text
  | append {a b : Text} (ha : IsBalanced a) (hb : IsBalanced b) : IsBalanced (a ++ b)
  | enclosed {text : Text} (h : IsBalanced text) : IsBalanced (openMark :: (text ++ [closeMark]))

theorem depthAfter_flat {u : CodeUnit} (depth : Int) (notOpen : u ≠ openMark)
    (notClose : u ≠ closeMark) : depthAfter depth u = depth := by
  have opens : u ≠ '(' := notOpen
  have closes : u ≠ ')' := notClose
  unfold depthAfter
  rw [if_neg opens, if_neg closes]

theorem depthAfter_openMark (depth : Int) : depthAfter depth openMark = depth + 1 := by
  simp [depthAfter, openMark]

theorem depthAfter_closeMark (depth : Int) : depthAfter (depth + 1) closeMark = depth := by
  simp [depthAfter, closeMark]

theorem enclosed_append (text rest : Text) : openMark :: (text ++ [closeMark]) ++ rest =
    openMark :: (text ++ closeMark :: rest) := by
  simp

/-- The first equals sign at depth zero is not in a balanced text. -/
theorem IsBalanced.equalsIndex? {text : Text} (h : IsBalanced text) (depth : Int) (rest : Text) :
    equalsIndex? depth (text ++ rest) = (equalsIndex? depth rest).map (· + text.length) := by
  induction h generalizing depth rest with
  | @flat text h =>
      induction text with
      | nil => simp
      | cons u text ih =>
          obtain ⟨⟨notOpen, notClose, other⟩, more⟩ := List.forall_mem_cons.mp h
          have notEquals : u ≠ '=' := other
          simp only [List.cons_append, Expression.equalsIndex?, notEquals, false_and, if_false,
            depthAfter_flat depth notOpen notClose, ih more, Option.map_map, List.length_cons]
          rfl
  | append ha hb iha ihb =>
      rw [List.append_assoc, iha, ihb, Option.map_map, List.length_append]
      congr 1
      funext k
      simp only [Function.comp_apply]
      omega
  | @enclosed text h ih =>
      have opens : openMark ≠ '=' := by decide
      have closes : closeMark ≠ '=' := by decide
      rw [enclosed_append, Expression.equalsIndex?, ih, Expression.equalsIndex?]
      simp only [opens, closes, false_and, if_false, depthAfter_openMark, depthAfter_closeMark,
        Option.map_map, List.length_cons, List.length_append, List.length_nil]
      congr 1
      funext k
      simp only [Function.comp_apply]
      omega

theorem IsBalanced.equalsMark_notMem {text : Text} (h : IsBalanced text) : equalsMark ∉ text := by
  induction h with
  | flat h =>
      intro mem
      exact (h equalsMark mem).2.2 rfl
  | append ha hb iha ihb =>
      intro mem
      exact (List.mem_append.mp mem).elim iha ihb
  | enclosed h ih =>
      have notOpen : equalsMark ≠ openMark := by decide
      have notClose : equalsMark ≠ closeMark := by decide
      simp [ih, notOpen, notClose]

/-- A balanced text inside parentheses does not close them. -/
theorem IsBalanced.afterClosing? {text : Text} (h : IsBalanced text) {depth : Int}
    (inside : 1 ≤ depth) (rest : Text) :
    afterClosing? depth (text ++ rest) = afterClosing? depth rest := by
  induction h generalizing depth rest with
  | @flat text h =>
      induction text with
      | nil => rfl
      | cons u text ih =>
          obtain ⟨⟨notOpen, notClose, -⟩, more⟩ := List.forall_mem_cons.mp h
          have closes : u ≠ ')' := notClose
          rw [List.cons_append, Expression.afterClosing?, depthAfter_flat depth notOpen notClose]
          simp only [closes, false_and, if_false, ih more]
  | append ha hb iha ihb => rw [List.append_assoc, iha inside, ihb inside]
  | @enclosed text h ih =>
      have opens : openMark ≠ ')' := by decide
      have deep : depth + 1 ≠ 1 := by omega
      rw [enclosed_append, Expression.afterClosing?, depthAfter_openMark]
      simp only [opens, false_and, if_false]
      rw [ih (by omega), Expression.afterClosing?, depthAfter_closeMark]
      simp only [deep, and_false, if_false]

theorem IsBalanced.of_spells {t : Term} {spelling : Text} (h : Spells t spelling) :
    IsBalanced spelling := by
  induction h with
  | var blank isName => exact .append (.flat (.of_isBlank blank)) (.flat (.of_isIdentifier isName))
  | @op left right gap a toComma b toClose blank hl blankComma hr blankClose ihl ihr =>
      have word : IsFlat (lit "op") := by decide
      have commaFlat : IsFlat [comma] := by decide
      have inside : IsBalanced (a ++ (toComma ++ ([comma] ++ (b ++ toClose)))) :=
        .append ihl (.append (.flat (.of_isBlank blankComma))
          (.append (.flat commaFlat) (.append ihr (.flat (.of_isBlank blankClose)))))
      have parts : gap ++ (opening ++ (a ++ (toComma ++ comma :: (b ++ (toClose ++ [closeMark]))))) =
          gap ++ (lit "op" ++ openMark :: ((a ++ (toComma ++ ([comma] ++ (b ++ toClose)))) ++
            [closeMark])) := by
        have mark : opening = lit "op" ++ [openMark] := rfl
        simp [mark]
      rw [parts]
      exact .append (.flat (.of_isBlank blank)) (.append (.flat word) (.enclosed inside))

theorem IsBalanced.of_isSide {t : Term} {text : Text} (h : IsSide t text) : IsBalanced text := by
  obtain ⟨spelling, tail, rfl, spells, trailing⟩ := h
  exact .append (.of_spells spells) (.flat (.of_isTrailing trailing))

/-! ## What the searches find -/

theorem exists_of_equalsIndex? {depth : Int} {text : Text} {k : Nat}
    (h : equalsIndex? depth text = some k) :
    ∃ a b, text = a ++ equalsMark :: b ∧ a.length = k := by
  induction text generalizing depth k with
  | nil => cases h
  | cons u rest ih =>
      rw [equalsIndex?] at h
      split at h
      · next sign =>
          cases h
          exact ⟨[], rest, congrArg (· :: rest) sign.1, rfl⟩
      · obtain ⟨j, later, rfl⟩ := Option.map_eq_some_iff.mp h
        obtain ⟨a, b, rfl, rfl⟩ := ih later
        exact ⟨u :: a, b, rfl, rfl⟩

theorem exists_of_afterClosing? {depth : Int} {text rest : Text}
    (h : afterClosing? depth text = some rest) : ∃ inside, text = inside ++ closeMark :: rest := by
  induction text generalizing depth with
  | nil => cases h
  | cons u more ih =>
      rw [afterClosing?] at h
      split at h
      · next closes =>
          cases h
          exact ⟨[], congrArg (· :: rest) closes.1⟩
      · obtain ⟨inside, rfl⟩ := ih h
        exact ⟨u :: inside, rfl⟩

theorem exists_of_isEnclosed {text : Text} (h : isEnclosed text = true) :
    ∃ inside, text = openMark :: (inside ++ [closeMark]) := by
  cases text with
  | nil => cases h
  | cons u rest =>
      rw [isEnclosed, Bool.and_eq_true, beq_iff_eq, beq_iff_eq] at h
      obtain ⟨inside, rfl⟩ := exists_of_afterClosing? h.2
      exact ⟨inside, congrArg (· :: (inside ++ [closeMark])) h.1⟩

end Expression

end MagmaTrace
