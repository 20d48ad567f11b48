import Mathlib.Data.List.TakeWhile
import MagmaTrace.Text.Cut

/-! # Texts without their white space

Breaking lines must not touch anything but white space, so two texts are compared by what
remains of them when all white space is deleted.
-/

namespace MagmaTrace.Text

/-- A text without its white space. -/
def solid (text : Text) : Text := text.filter (!isBlank ·)

/-- A text all of whose units are white space. -/
def IsBlank (text : Text) : Prop := ∀ u ∈ text, isBlank u = true

/-- A text none of whose units is white space. -/
def IsSolid (text : Text) : Prop := ∀ u ∈ text, isBlank u = false

instance (text : Text) : Decidable (IsBlank text) := List.decidableBAll _ text

instance (text : Text) : Decidable (IsSolid text) := List.decidableBAll _ text

theorem isBlank_nil : IsBlank [] := List.forall_mem_nil _

theorem isBlank_space : IsBlank (lit " ") := by decide

@[simp] theorem solid_nil : solid [] = [] := rfl

@[simp] theorem solid_append (a b : Text) : solid (a ++ b) = solid a ++ solid b :=
  List.filter_append a b

theorem solid_of_isBlank {text : Text} (h : IsBlank text) : solid text = [] := by
  rw [solid, List.filter_eq_nil_iff]
  intro u hu
  simp [h u hu]

theorem solid_of_isSolid {text : Text} (h : IsSolid text) : solid text = text := by
  rw [solid, List.filter_eq_self]
  intro u hu
  simp [h u hu]

theorem count_solid {mark : CodeUnit} (h : isBlank mark = false) (text : Text) :
    (solid text).count mark = text.count mark :=
  List.count_filter (by simp [h])

theorem IsSolid.append {a b : Text} (ha : IsSolid a) (hb : IsSolid b) : IsSolid (a ++ b) := by
  intro u hu
  rcases List.mem_append.mp hu with hu | hu
  · exact ha u hu
  · exact hb u hu

theorem IsSolid.reverse {text : Text} (h : IsSolid text) : IsSolid text.reverse :=
  fun u hu => h u (List.mem_reverse.mp hu)

/-! ## Classes of units, by their numbers -/

theorem isBlank_iff (u : CodeUnit) : isBlank u = true ↔
    (9 ≤ u.toNat ∧ u.toNat ≤ 13) ∨ u.toNat = 32 ∨ u.toNat = 160 ∨ u.toNat = 5760 ∨
      (8192 ≤ u.toNat ∧ u.toNat ≤ 8202) ∨ u.toNat = 8232 ∨ u.toNat = 8233 ∨ u.toNat = 8239 ∨
      u.toNat = 8287 ∨ u.toNat = 12288 ∨ u.toNat = 65279 := by
  simp only [isBlank, Bool.or_eq_true, Bool.and_eq_true, decide_eq_true_eq, beq_iff_eq,
    UInt16.le_iff_toNat_le, ← UInt16.toNat_inj, UInt16.reduceToNat, or_assoc]

theorem isDigit_iff (u : CodeUnit) : isDigit u = true ↔ 48 ≤ u.toNat ∧ u.toNat ≤ 57 := by
  simp only [isDigit, Bool.and_eq_true, decide_eq_true_eq, UInt16.le_iff_toNat_le,
    UInt16.reduceToNat]

theorem isLetter_iff (u : CodeUnit) : isLetter u = true ↔
    (65 ≤ u.toNat ∧ u.toNat ≤ 90) ∨ (97 ≤ u.toNat ∧ u.toNat ≤ 122) := by
  simp only [isLetter, Bool.or_eq_true, Bool.and_eq_true, decide_eq_true_eq,
    UInt16.le_iff_toNat_le, UInt16.reduceToNat]

theorem isWord_iff (u : CodeUnit) : isWord u = true ↔
    (48 ≤ u.toNat ∧ u.toNat ≤ 57) ∨ (65 ≤ u.toNat ∧ u.toNat ≤ 90) ∨ u.toNat = 95 ∨
      (97 ≤ u.toNat ∧ u.toNat ≤ 122) := by
  simp only [isWord, Bool.or_eq_true, isLetter_iff, isDigit_iff, beq_iff_eq, ← UInt16.toNat_inj,
    UInt16.reduceToNat]
  omega

theorem isBlank_of_isWord {u : CodeUnit} (h : isWord u = true) : isBlank u = false := by
  rw [isWord_iff] at h
  rw [Bool.eq_false_iff, ne_eq, isBlank_iff]
  omega

theorem not_isWord_of_isBlank {u : CodeUnit} (blank : isBlank u = true) : isWord u = false := by
  cases word : isWord u with
  | false => rfl
  | true =>
      rw [isBlank_of_isWord word] at blank
      cases blank

theorem isBlank_of_isDigit {u : CodeUnit} (h : isDigit u = true) : isBlank u = false :=
  isBlank_of_isWord (by simp [isWord, h])

theorem isBlank_of_isLetter {u : CodeUnit} (h : isLetter u = true) : isBlank u = false :=
  isBlank_of_isWord (by simp [isWord, h])

theorem isBlank_of_isLineEnd {u : CodeUnit} (h : isLineEnd u = true) : isBlank u = true := by
  simp only [isLineEnd, newline, carriageReturn, Bool.or_eq_true, beq_iff_eq, ← UInt16.toNat_inj,
    UInt16.reduceToNat] at h
  rw [isBlank_iff]
  omega

theorem isLineEnd_of_not_isBlank {u : CodeUnit} (h : isBlank u = false) : isLineEnd u = false := by
  rw [Bool.eq_false_iff]
  intro ends
  exact absurd (isBlank_of_isLineEnd ends) (Bool.eq_false_iff.mp h)

theorem isLineEnd_of_isDigit {u : CodeUnit} (h : isDigit u = true) : isLineEnd u = false :=
  isLineEnd_of_not_isBlank (isBlank_of_isDigit h)

theorem isWord_of_isWordStart {u : CodeUnit} (h : isWordStart u = true) : isWord u = true := by
  rw [isWordStart, Bool.or_eq_true] at h
  rw [isWord, Bool.or_eq_true, Bool.or_eq_true]
  exact h.imp_left .inl

/-- What starts with white space, or else with a mark, starts with a unit of either kind. -/
theorem head?_gap {p : CodeUnit → Prop} {gap : Text} (blank : IsBlank gap)
    (onBlank : ∀ u, isBlank u = true → p u) {mark : CodeUnit} (atMark : p mark) (more : Text) :
    ∀ u ∈ (gap ++ mark :: more).head?, p u := by
  intro u first
  cases gap with
  | nil =>
      cases first
      exact atMark
  | cons v gap =>
      cases first
      exact onBlank u (blank u List.mem_cons_self)

/-! ## Trimming -/

theorem skipBlanks_blank_append {lead : Text} (h : IsBlank lead) (text : Text) :
    skipBlanks (lead ++ text) = skipBlanks text := by
  have gone : lead.dropWhile isBlank = [] := List.dropWhile_eq_nil_iff.mpr h
  simp [skipBlanks, List.dropWhile_append, gone]

theorem skipBlanks_solid_append {text : Text} (h : IsSolid text) (nonempty : text ≠ [])
    (rest : Text) : skipBlanks (text ++ rest) = text ++ rest := by
  cases text with
  | nil => exact absurd rfl nonempty
  | cons u more =>
      have solidHead : isBlank u = false := h u List.mem_cons_self
      simp [skipBlanks, solidHead]

theorem dropEndWhile_append_blank {tail : Text} (h : IsBlank tail) (text : Text) :
    dropEndWhile isBlank (text ++ tail) = dropEndWhile isBlank text := by
  have blank : IsBlank tail.reverse := fun u hu => h u (List.mem_reverse.mp hu)
  have gone : tail.reverse.dropWhile isBlank = [] := List.dropWhile_eq_nil_iff.mpr blank
  simp [dropEndWhile, List.dropWhile_append, gone]

theorem trim_append_blank {tail : Text} (h : IsBlank tail) (text : Text) :
    trim (text ++ tail) = trim text := by
  unfold trim skipBlanks
  rw [List.dropWhile_append]
  split
  · next gone =>
      rw [List.isEmpty_iff.mp gone, List.dropWhile_eq_nil_iff.mpr h]
  · exact dropEndWhile_append_blank h _

theorem dropEndWhile_of_isSolid {text : Text} (h : IsSolid text) :
    dropEndWhile isBlank text = text := by
  by_cases nonempty : text = []
  · subst text
    rfl
  · have kept := skipBlanks_solid_append h.reverse (by simpa using nonempty) []
    simp only [List.append_nil, skipBlanks] at kept
    simp [dropEndWhile, kept]

/-- Dropping white space at the end stops at a solid text. -/
theorem dropEndWhile_append_solid {text : Text} (h : IsSolid text) (nonempty : text ≠ [])
    (lead tail : Text) :
    dropEndWhile isBlank (lead ++ text ++ tail) = lead ++ text ++ dropEndWhile isBlank tail := by
  have stops : (text.reverse ++ lead.reverse).dropWhile isBlank = text.reverse ++ lead.reverse :=
    skipBlanks_solid_append h.reverse (by simpa using nonempty) lead.reverse
  unfold dropEndWhile
  rw [List.reverse_append, List.reverse_append, List.dropWhile_append, stops]
  split
  · next all =>
      rw [List.isEmpty_iff.mp all]
      simp
  · simp

/-- Trimming takes off the white space around a solid text and nothing else. -/
theorem trim_around {lead text tail : Text} (hl : IsBlank lead) (h : IsSolid text)
    (ht : IsBlank tail) : trim (lead ++ text ++ tail) = text := by
  rw [trim, List.append_assoc, skipBlanks_blank_append hl]
  by_cases nonempty : text = []
  · subst text
    have gone : skipBlanks tail = [] := List.dropWhile_eq_nil_iff.mpr ht
    simp [gone, dropEndWhile]
  · rw [skipBlanks_solid_append h nonempty, dropEndWhile_append_blank ht,
      dropEndWhile_of_isSolid h]

/-- A text that starts and ends with a solid unit is trimmed already. -/
theorem trim_of_solid_ends {text : Text} (first : ∀ u ∈ text.head?, isBlank u = false)
    (last : ∀ u ∈ text.getLast?, isBlank u = false) : trim text = text := by
  have front : skipBlanks text = text := by
    cases text with
    | nil => rfl
    | cons u rest => simp [skipBlanks, first u rfl]
  have back : text.reverse.dropWhile isBlank = text.reverse := by
    cases reversed : text.reverse with
    | nil => rfl
    | cons u rest =>
        have ending : text.getLast? = some u := by
          rw [← List.head?_reverse, reversed]
          rfl
        simp [last u ending]
  simp [trim, front, dropEndWhile, back]

/-! ## Joining and splitting -/

theorem join_append {separator : Text} {xs ys : List Text} (hx : xs ≠ []) (hy : ys ≠ []) :
    join separator (xs ++ ys) = join separator xs ++ separator ++ join separator ys := by
  induction xs with
  | nil => exact absurd rfl hx
  | cons x xs ih =>
      by_cases tail : xs = []
      · subst xs
        simp [join, List.intercalate_cons_of_ne_nil hy]
      · have longer : xs ++ ys ≠ [] := by simp [tail]
        have step := ih tail
        simp only [join] at step ⊢
        rw [List.cons_append, List.intercalate_cons_of_ne_nil longer, step,
          List.intercalate_cons_of_ne_nil tail]
        simp only [List.append_assoc]

theorem join_cons {separator x : Text} {xs : List Text} (h : xs ≠ []) :
    join separator (x :: xs) = x ++ separator ++ join separator xs :=
  List.intercalate_cons_of_ne_nil h

@[simp] theorem join_singleton (separator x : Text) : join separator [x] = x :=
  List.intercalate_singleton

theorem join_lit_pair (separator s t : String) :
    join (lit separator) [lit s, lit t] = lit (s ++ separator ++ t) := by
  rw [join_cons (List.cons_ne_nil _ _), join_singleton, lit_append, lit_append]

theorem suffix_join_concat (separator x : Text) (xs : List Text) :
    x <:+ join separator (xs ++ [x]) := by
  by_cases first : xs = []
  · simp [first]
  · rw [join_append first (List.cons_ne_nil x []), join_singleton]
    exact List.suffix_append _ x

theorem infix_join_of_mem {separator piece : Text} {pieces : List Text} (h : piece ∈ pieces) :
    piece <:+: join separator pieces := by
  obtain ⟨before, after, rfl⟩ := List.append_of_mem h
  have tail : piece <+: join separator (piece :: after) := by
    by_cases last : after = []
    · simp only [last, join_singleton, List.prefix_rfl]
    · rw [join_cons last, List.append_assoc]
      exact List.prefix_append ..
  by_cases first : before = []
  · rw [first]
    exact tail.isInfix
  · rw [join_append first (List.cons_ne_nil _ _)]
    exact List.IsInfix.trans tail.isInfix (List.suffix_append ..).isInfix

/-- White space between pieces leaves no trace. -/
theorem solid_join {separator : Text} (h : IsBlank separator) (pieces : List Text) :
    solid (join separator pieces) = solid pieces.flatten := by
  induction pieces with
  | nil => rfl
  | cons piece pieces ih =>
      by_cases tail : pieces = []
      · subst pieces
        simp
      · rw [join_cons tail, List.flatten_cons]
        simp only [solid_append, solid_of_isBlank h, ih, List.append_nil]

/-- Every separator between pieces adds its own marks. -/
theorem count_join (mark : CodeUnit) (separator : Text) {pieces : List Text} (h : pieces ≠ []) :
    (join separator pieces).count mark =
      pieces.flatten.count mark + (pieces.length - 1) * separator.count mark := by
  induction pieces with
  | nil => exact absurd rfl h
  | cons piece pieces ih =>
      by_cases tail : pieces = []
      · subst pieces
        simp
      · obtain ⟨n, hn⟩ : ∃ n, pieces.length = n + 1 :=
          Nat.exists_eq_succ_of_ne_zero (by simpa using tail)
        rw [join_cons tail]
        simp only [List.count_append, ih tail, List.flatten_cons, List.length_cons, hn]
        simp only [Nat.add_sub_cancel, Nat.add_mul]
        omega

theorem splitAt_eq_splitOn (mark : CodeUnit) (text : Text) :
    splitAt mark text = text.splitOn mark := by
  induction text with
  | nil => rfl
  | cons u rest ih =>
      rw [List.splitOn_eq_splitOnP] at ih ⊢
      rw [List.splitOnP_cons_eq_if_modifyHead, ← ih]
      by_cases same : u = mark
      · simp [splitAt, same]
      · have other : (u == mark) = false := by simpa using same
        simp only [splitAt, same, other, if_false, Bool.false_eq_true]
        cases splitAt mark rest <;> rfl

theorem splitAt_of_not_mem {mark : CodeUnit} {text : Text} (h : mark ∉ text) :
    splitAt mark text = [text] := by
  have whole : ([mark].intercalate [text]).splitOn mark = [text] :=
    List.splitOn_intercalate mark (by simpa using h) (by simp)
  rwa [List.intercalate_singleton, ← splitAt_eq_splitOn] at whole

/-- A mark between two texts keeps their pieces apart. -/
theorem splitAt_append (mark : CodeUnit) (a b : Text) :
    splitAt mark (a ++ mark :: b) = splitAt mark a ++ splitAt mark b := by
  simp only [splitAt_eq_splitOn, List.splitOn_append_cons_self]

/-- The first mark cuts off the piece before it. -/
theorem splitAt_append_mark {mark : CodeUnit} {piece : Text} (h : mark ∉ piece) (rest : Text) :
    splitAt mark (piece ++ mark :: rest) = piece :: splitAt mark rest := by
  rw [splitAt_append, splitAt_of_not_mem h, List.singleton_append]

end MagmaTrace.Text
