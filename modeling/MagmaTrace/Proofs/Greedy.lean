import Mathlib.Data.List.Chain
import MagmaTrace.Proofs.Wrapping

/-! # Lines filled from the left

A side that is too wide is broken into lines of one or more parts. A line is given every part that
still fits, and never more: the parts stand in order, none is lost, and no part could have stood
one line earlier. Only one way of breaking does this, and it is the one that is taken
(`Layout.wrapSide_greedy`).
-/

namespace MagmaTrace

open Text

namespace Layout

/-- A line with the operation's sign between its parts. -/
def lineOf (group : List Text) : Text := join (lit " ◇ ") group

/-- Parts in groups, one for each line, filled from the left: a line of several parts fits, and no
    line has room for the first part of the next. -/
structure IsFilling (limit : Signed) (parts : List Text) (groups : List (List Text)) : Prop where
  inOrder : groups.flatten = parts
  nonempty : ∀ group ∈ groups, group ≠ []
  fitting : ∀ group ∈ groups, 2 ≤ group.length → fits limit (lineOf group) = true
  full : groups.IsChain fun group next =>
    ∀ part ∈ next.head?, fits limit (lineOf group ++ lit " ◇ " ++ part) = false

theorem lineOf_append {a b : List Text} (ha : a ≠ []) (hb : b ≠ []) :
    lineOf (a ++ b) = lineOf a ++ lit " ◇ " ++ lineOf b :=
  join_append ha hb

@[simp] theorem lineOf_singleton (part : Text) : lineOf [part] = part :=
  join_singleton _ part

/-- What is no longer than a text that fits, fits. -/
theorem fits_of_length_le {limit : Signed} {a b : Text} (fitting : fits limit b = true)
    (shorter : a.length ≤ b.length) : fits limit a = true := by
  obtain ⟨negative, size⟩ := limit
  cases size with
  | infinite => exact fitting
  | finite m q =>
      cases negative with
      | true =>
          simp only [fits, Signed.atLeast, if_true, Bool.and_eq_true, beq_iff_eq] at fitting ⊢
          exact ⟨by omega, fitting.2⟩
      | false =>
          simp only [fits, Signed.atLeast, Bool.false_eq_true, if_false, decide_eq_true_eq]
            at fitting ⊢
          exact (Nat.mul_le_mul_right _ shorter).trans fitting

namespace IsFilling

variable {limit : Signed} {parts : List Text} {group : List Text} {groups : List (List Text)}

theorem tail (h : IsFilling limit parts (group :: groups)) :
    IsFilling limit groups.flatten groups where
  inOrder := rfl
  nonempty other mem := h.nonempty other (List.mem_cons_of_mem _ mem)
  fitting other mem := h.fitting other (List.mem_cons_of_mem _ mem)
  full := h.full.tail

theorem single (nonempty : group ≠ [])
    (fitting : 2 ≤ group.length → fits limit (lineOf group) = true) :
    IsFilling limit group [group] where
  inOrder := List.flatten_singleton
  nonempty := by simpa using nonempty
  fitting := by simpa using fitting
  full := .singleton _

/-- The first part stands first on the first line. -/
theorem exists_first {part : Text} (h : IsFilling limit (part :: parts) groups) :
    ∃ more others, groups = (part :: more) :: others := by
  cases groups with
  | nil => cases h.inOrder
  | cons group others =>
      obtain ⟨first, more, rfl⟩ := List.exists_cons_of_ne_nil (h.nonempty group List.mem_cons_self)
      obtain ⟨rfl, -⟩ := List.cons.inj h.inOrder
      exact ⟨more, others, rfl⟩

/-- A line goes before others if it has no room for the first of their parts. -/
theorem cons {part : Text} (h : IsFilling limit (part :: parts) groups) (nonempty : group ≠ [])
    (fitting : 2 ≤ group.length → fits limit (lineOf group) = true)
    (full : fits limit (lineOf group ++ lit " ◇ " ++ part) = false) :
    IsFilling limit (group ++ part :: parts) (group :: groups) where
  inOrder := by rw [List.flatten_cons, h.inOrder]
  nonempty := List.forall_mem_cons.mpr ⟨nonempty, h.nonempty⟩
  fitting := List.forall_mem_cons.mpr ⟨fitting, h.fitting⟩
  full := by
    obtain ⟨more, others, rfl⟩ := h.exists_first
    refine List.isChain_cons.mpr ⟨?_, h.full⟩
    rintro _ ⟨⟩ _ ⟨⟩
    exact full

/-- The first line of a filling is as long as can be. -/
theorem eq_nil_of_longer {more rest : List Text} (h : IsFilling limit parts (group :: groups))
    (goesOn : groups.flatten = more ++ rest)
    (longer : 2 ≤ (group ++ more).length → fits limit (lineOf (group ++ more)) = true) :
    more = [] := by
  cases more with
  | nil => rfl
  | cons part more =>
      have begun : group ≠ [] := h.nonempty group List.mem_cons_self
      have onNext := h.tail
      rw [goesOn, List.cons_append] at onNext
      obtain ⟨within, others, rfl⟩ := onNext.exists_first
      have noRoom : fits limit (lineOf group ++ lit " ◇ " ++ part) = false :=
        h.full.rel_head? rfl part rfl
      have several : 2 ≤ (group ++ part :: more).length := by
        have := List.length_pos_of_ne_nil begun
        simp only [List.length_append, List.length_cons]
        omega
      have prefixOf : lineOf group ++ lit " ◇ " ++ part <+: lineOf (group ++ part :: more) := by
        rw [lineOf_append begun (List.cons_ne_nil part more)]
        refine (List.prefix_append_right_inj _).mpr ?_
        by_cases last : more = []
        · rw [last, lineOf_singleton]
        · rw [← List.singleton_append, lineOf_append (List.cons_ne_nil part []) last,
            lineOf_singleton, List.append_assoc]
          exact List.prefix_append _ _
      have room := fits_of_length_le (longer several) prefixOf.length_le
      rw [noRoom] at room
      cases room

/-- Parts are filled into lines in one way only. -/
theorem unique {other : List (List Text)} (h : IsFilling limit parts groups)
    (h' : IsFilling limit parts other) : other = groups := by
  induction groups generalizing parts other with
  | nil =>
      cases other with
      | nil => rfl
      | cons group others =>
          have none : group ++ others.flatten = [] := h'.inOrder.trans h.inOrder.symm
          exact absurd (List.append_eq_nil_iff.mp none).1 (h'.nonempty group List.mem_cons_self)
  | cons group groups ih =>
      cases other with
      | nil =>
          have none : group ++ groups.flatten = [] := h.inOrder.trans h'.inOrder.symm
          exact absurd (List.append_eq_nil_iff.mp none).1 (h.nonempty group List.mem_cons_self)
      | cons group' others =>
          have same : group ++ groups.flatten = group' ++ others.flatten :=
            h.inOrder.trans h'.inOrder.symm
          -- One of the two first lines goes on where the other ends, so neither can.
          have sameFirst : group' = group := by
            rcases List.append_eq_append_iff.mp same with ⟨more, rfl, goesOn⟩ | ⟨more, rfl, goesOn⟩
            · rw [h.eq_nil_of_longer goesOn (h'.fitting _ List.mem_cons_self), List.append_nil]
            · rw [h'.eq_nil_of_longer goesOn (h.fitting _ List.mem_cons_self), List.append_nil]
          subst sameFirst
          have onOther := h'.tail
          rw [← List.append_cancel_left same] at onOther
          rw [ih h.tail onOther]

end IsFilling

/-- Filling goes on with the line that has been begun. -/
theorem fill_isFilling (limit : Signed) {begun : List Text} (nonempty : begun ≠ [])
    (fitting : 2 ≤ begun.length → fits limit (lineOf begun) = true) (parts : List Text) :
    ∃ groups, IsFilling limit (begun ++ parts) groups ∧
      fill limit (lineOf begun) parts = groups.map lineOf := by
  induction parts generalizing begun with
  | nil => exact ⟨[begun], by simpa using IsFilling.single nonempty fitting, rfl⟩
  | cons part parts ih =>
      rw [fill]
      cases room : fits limit (lineOf begun ++ lit " ◇ " ++ part) with
      | true =>
          have longer : lineOf (begun ++ [part]) = lineOf begun ++ lit " ◇ " ++ part := by
            rw [lineOf_append nonempty (List.cons_ne_nil part []), lineOf_singleton]
          obtain ⟨groups, filling, lines⟩ :=
            ih (List.concat_ne_nil part begun) (fun _ => longer ▸ room)
          rw [List.append_assoc, List.singleton_append] at filling
          exact ⟨groups, filling, by rw [if_pos rfl, ← longer, lines]⟩
      | false =>
          obtain ⟨groups, filling, lines⟩ := ih (List.cons_ne_nil part []) (by simp)
          rw [lineOf_singleton] at lines
          exact ⟨begun :: groups, filling.cons nonempty fitting room,
            by rw [if_neg Bool.false_ne_true, lines, List.map_cons]⟩

theorem parts_ne_nil (text : Text) : parts text ≠ [] := by
  rw [parts, splitAt_eq_splitOn, ne_eq, List.map_eq_nil_iff]
  exact List.splitOn_ne_nil _ _

/-- A side is put on one line if it fits, and else on the lines that its parts fill from the left,
    of which there is one way. -/
theorem wrapSide_greedy (text indent : Text) (limit : Signed) :
    ∃ groups, IsFilling limit (parts (trim text)) groups ∧
      (∀ other, IsFilling limit (parts (trim text)) other → other = groups) ∧
      wrapSide text indent limit =
        if fits limit (trim text) then trim text
        else join (newline :: indent) (groups.map lineOf) := by
  obtain ⟨first, more, cut⟩ := List.exists_cons_of_ne_nil (parts_ne_nil (trim text))
  obtain ⟨groups, filling, lines⟩ := fill_isFilling limit (List.cons_ne_nil first []) (by simp) more
  rw [List.singleton_append, ← cut] at filling
  rw [lineOf_singleton] at lines
  refine ⟨groups, filling, fun other => filling.unique, ?_⟩
  unfold wrapSide sideLines
  by_cases fitting : fits limit (trim text) = true
  · simp [fitting]
  · simp [fitting, cut, lines]

/-- Empty parts are kept, and a part that does not fit stands on a line of its own. -/
example : wrapSide (lit " (variable ◇◇ y) ◇ z ") (lit "  ") (.ofNat 6) =
    lit "(variable\n   ◇ y)\n  z" := by
  decide +kernel

end Layout

end MagmaTrace
