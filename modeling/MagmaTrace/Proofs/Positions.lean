import MagmaTrace.Diagnostic.Kind
import MagmaTrace.Proofs.Offsets

/-! # Lines and columns

A failure is shown with a line and a column, which are worked out apart: the line by counting line
feeds before the offset, the column by looking back for the last one. Together they determine the
offset, which is the start of the line and as many units on as there are columns before. Only at the
very start of a text whose first unit is a line feed is there no such column
(`Diagnostic.offset_located_iff`).
-/

namespace MagmaTrace

open Text

namespace Span

/-- Lines are counted from one; the first starts with the text, any other just after the line feed
    that ends the one before it. -/
def LineStartsAt (text : Text) (line start : Nat) : Prop :=
  (line = 1 ∧ start = 0) ∨ ∃ before rest, text = before ++ newline :: rest ∧
    line = before.count newline + 2 ∧ start = before.length + 1

/-- A line and a column, counted from one, lead to an offset. -/
def LeadsTo (text : Text) (line column offset : Nat) : Prop :=
  1 ≤ column ∧ ∃ start, LineStartsAt text line start ∧ offset = start + (column - 1)

/-- A line starts at one place only. -/
theorem LineStartsAt.unique {text : Text} {line start other : Nat}
    (h : LineStartsAt text line start) (h' : LineStartsAt text line other) : start = other := by
  rcases h with ⟨first, rfl⟩ | ⟨before, rest, rfl, counted, rfl⟩
  · rcases h' with ⟨-, rfl⟩ | ⟨before, rest, -, counted, -⟩
    · rfl
    · omega
  · rcases h' with ⟨first, -⟩ | ⟨before', rest', split, counted', rfl⟩
    · omega
    · -- A further part between the two line feeds would hold one more of them.
      rcases List.append_eq_append_iff.mp split with ⟨more, rfl, tail⟩ | ⟨more, rfl, tail⟩
      all_goals
        rcases more with _ | ⟨u, more⟩
        · simp
        · obtain ⟨rfl, -⟩ := List.cons.inj tail
          simp only [List.count_append, List.count_cons_self] at counted counted'
          omega

theorem LeadsTo.unique {text : Text} {line column offset other : Nat}
    (h : LeadsTo text line column offset) (h' : LeadsTo text line column other) :
    offset = other := by
  obtain ⟨-, start, starts, rfl⟩ := h
  obtain ⟨-, start', starts', rfl⟩ := h'
  rw [starts.unique starts']

/-! ## Looking back -/

/-- Up to its last line feed a text is nothing, or it ends with that line feed. -/
theorem eq_nil_or_ends_newline (text : Text) : dropEndWhile (· != newline) text = [] ∨
    ∃ before, dropEndWhile (· != newline) text = before ++ [newline] := by
  unfold dropEndWhile
  cases back : text.reverse.dropWhile (· != newline) with
  | nil => exact .inl rfl
  | cons u rest =>
      rw [eq_of_dropWhile_mark back]
      exact .inr ⟨rest.reverse, List.reverse_cons⟩

/-- Looking back from the start still looks at the first unit, which does not matter unless this
    is a line feed. -/
theorem columnOf_eq {text : Text} {offset : Nat} (h : ¬ (offset = 0 ∧ text.head? = some newline)) :
    columnOf text offset =
      offset + 1 - (dropEndWhile (· != newline) (text.take offset)).length := by
  unfold columnOf
  cases offset with
  | succ before => rw [Nat.max_eq_left (by omega)]
  | zero =>
      cases text with
      | nil => rfl
      | cons u rest =>
          have other : u ≠ newline := fun same => h ⟨rfl, congrArg some same⟩
          simp [dropEndWhile, other]

theorem columnOf_zero {text : Text} (h : text.head? = some newline) : columnOf text 0 = 0 := by
  obtain ⟨rest, rfl⟩ := List.head?_eq_some_iff.mp h
  simp [columnOf, dropEndWhile]

theorem leadsTo_point {text : Text} {offset : Nat} (inside : offset ≤ text.length)
    (h : ¬ (offset = 0 ∧ text.head? = some newline)) :
    LeadsTo text (lineOf text offset) (columnOf text offset) offset := by
  obtain ⟨line, split, unbroken⟩ := exists_dropped (· != newline) (text.take offset)
  have noFeed : line.count newline = 0 :=
    List.count_eq_zero.mpr fun mem => absurd (unbroken newline mem) (by simp)
  have size := congrArg List.length split
  have counted := congrArg (List.count newline) split
  have whole : text = text.take offset ++ text.drop offset := (List.take_append_drop ..).symm
  rw [List.length_take_of_le inside, List.length_append] at size
  rw [List.count_append, noFeed] at counted
  rw [columnOf_eq h, lineOf, counted]
  rcases eq_nil_or_ends_newline (text.take offset) with none | ⟨before, ends⟩
  · rw [none] at size ⊢
    simp only [List.length_nil] at size ⊢
    exact ⟨by omega, 0, .inl ⟨rfl, rfl⟩, by omega⟩
  · rw [ends] at split size ⊢
    simp only [List.length_append, List.length_singleton] at size ⊢
    refine ⟨by omega, before.length + 1, .inr ⟨before, line ++ text.drop offset, ?_, ?_, rfl⟩,
      by omega⟩
    · conv_lhs => rw [whole, split]
      simp
    · simp
      omega

/-- Different offsets are shown with different lines or columns. -/
theorem point_unique {text : Text} {a b : Nat} (ha : a ≤ text.length) (hb : b ≤ text.length)
    (line : lineOf text a = lineOf text b) (column : columnOf text a = columnOf text b) :
    a = b := by
  -- Column zero is that of the start before a line feed alone.
  by_cases startA : a = 0 ∧ text.head? = some newline
  · by_cases startB : b = 0 ∧ text.head? = some newline
    · rw [startA.1, startB.1]
    · have positive := (leadsTo_point hb startB).1
      rw [← column, startA.1, columnOf_zero startA.2] at positive
      cases positive
  · have leads := leadsTo_point ha startA
    by_cases startB : b = 0 ∧ text.head? = some newline
    · have positive := leads.1
      rw [column, startB.1, columnOf_zero startB.2] at positive
      cases positive
    · rw [line, column] at leads
      exact leads.unique (leadsTo_point hb startB)

end Span

namespace Diagnostic

/-- A failure at an offset is on the line with one more than the line feeds before it, and line and
    column lead back to the offset, unless it is the start of a text that begins with a line feed:
    there the column is zero. In any case they are those of no other offset. -/
theorem offset_located_iff {δ : Type} (message input : Text) {offset : Nat}
    (inside : offset ≤ input.length) : ∃ line column,
      (parseError message input (some offset) : Diagnostic δ).span =
        some ⟨offset, offset + 1, some line, some column⟩ ∧
      line = 1 + (input.take offset).count newline ∧
      (Span.LeadsTo input line column offset ↔
        ¬ (offset = 0 ∧ input.head? = some newline)) ∧
      (offset = 0 → input.head? = some newline → column = 0) ∧
      ∀ other ≤ input.length, ∀ span,
        (parseError message input (some other) : Diagnostic δ).span = some span →
        span.line = some line → span.column = some column → other = offset := by
  have zero (h : offset = 0 ∧ input.head? = some newline) : Span.columnOf input offset = 0 := by
    rw [h.1, Span.columnOf_zero h.2]
  refine ⟨Span.lineOf input offset, Span.columnOf input offset, rfl, rfl, ?_, ?_, ?_⟩
  · constructor
    · intro leads start
      have positive := leads.1
      rw [zero start] at positive
      cases positive
    · exact Span.leadsTo_point inside
  · exact fun start head => zero ⟨start, head⟩
  · rintro other within span ⟨⟩ sameLine sameColumn
    exact Span.point_unique within inside (Option.some.inj sameLine) (Option.some.inj sameColumn)

/-- An offset after two line feeds, one of them at the start of the text. -/
theorem offset_located_iff_afterFeeds :
    let input := lit "\na\nbc"
    5 ≤ input.length ∧
    (parseError [] input (some 5) : Diagnostic Details).span = some ⟨5, 6, some 3, some 3⟩ ∧
    Span.LeadsTo input 3 3 5 := by
  intro input
  have inside : 5 ≤ input.length := by decide
  have shown : (parseError [] input (some 5) : Diagnostic Details).span =
      some ⟨5, 6, some 3, some 3⟩ := by decide
  obtain ⟨line, column, span, -, located, -⟩ := @offset_located_iff Details [] input 5 inside
  cases span.symm.trans shown
  exact ⟨inside, shown, located.mpr (by decide)⟩

/-- From the column of a line feed at the start, which is zero, nothing leads back to it. -/
theorem start_not_located : ¬ ∀ (message input : Text) (offset : Nat), offset ≤ input.length →
    ∃ line column, (parseError message input (some offset) : Diagnostic Details).span =
        some ⟨offset, offset + 1, some line, some column⟩ ∧
      Span.LeadsTo input line column offset := by
  intro claimed
  have shown : (parseError (lit "m") (lit "\nabc") (some 0) : Diagnostic Details).span =
      some ⟨0, 1, some 1, some 0⟩ := by decide
  obtain ⟨line, column, span, positive, -⟩ := claimed (lit "m") (lit "\nabc") 0 (by decide)
  cases span.symm.trans shown
  cases positive

end Diagnostic

end MagmaTrace
