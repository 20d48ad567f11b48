import MagmaTrace.Layout
import MagmaTrace.Proofs.Diamond

/-! # What breaking a side keeps

A side is broken only at operation signs, and a sign at which it is broken is not written.
The lines that a side is broken into give the side back when they are joined with the sign
again (`Layout.join_sideLines`), so nothing else is lost.
-/

namespace MagmaTrace

open Text

namespace Term

/-- The parts of a printed term between its operation signs, with text put before the first
    and after the last. -/
def pieces (before : Text) : Term → (after : Text) → List Text
  | var name, after => [before ++ name ++ after]
  | op left right, after =>
    left.pieces (before ++ [openMark]) [] ++ right.pieces [] (closeMark :: after)

theorem pieces_ne_nil (t : Term) (before after : Text) : t.pieces before after ≠ [] := by
  induction t generalizing before after with
  | var => simp [pieces]
  | op left right ihl ihr => simp [pieces, ihl]

theorem join_pieces (t : Term) (before after : Text) :
    join (lit " ◇ ") (t.pieces before after) = before ++ t.lean ++ after := by
  induction t generalizing before after with
  | var name => simp [pieces, lean]
  | op left right ihl ihr =>
      have sign : lit " ◇ " = [0x20, diamond, 0x20] := rfl
      rw [pieces, join_append (pieces_ne_nil _ _ _) (pieces_ne_nil _ _ _), ihl, ihr, lean_op, sign]
      simp

theorem length_pieces (t : Term) (before after : Text) :
    (t.pieces before after).length = t.operations + 1 := by
  induction t generalizing before after with
  | var => rfl
  | op left right ihl ihr =>
      simp only [pieces, List.length_append, ihl, ihr, operations]
      omega

/-- A unit that stands in no name and is no parenthesis stands in no part. -/
theorem not_mem_pieces {t : Term} {before after : Text} {u : CodeUnit}
    (names : ∀ name ∈ t.names, u ∉ name) (hb : u ∉ before) (ha : u ∉ after)
    (isOpen : u ≠ openMark) (isClose : u ≠ closeMark) : ∀ piece ∈ t.pieces before after, u ∉ piece := by
  induction t generalizing before after with
  | var name =>
      have absent : u ∉ name := names name (by simp [Term.names])
      simp [pieces, hb, ha, absent]
  | op left right ihl ihr =>
      have left' : ∀ piece ∈ left.pieces (before ++ [openMark]) [], u ∉ piece :=
        ihl (fun name hn => names name (List.mem_append_left _ hn))
          (by simp [hb, isOpen]) (by simp)
      have right' : ∀ piece ∈ right.pieces [] (closeMark :: after), u ∉ piece :=
        ihr (fun name hn => names name (List.mem_append_right _ hn))
          (by simp) (by simp [ha, isClose])
      intro piece hp
      rcases List.mem_append.mp hp with hp | hp
      · exact left' piece hp
      · exact right' piece hp

end Term

namespace Layout

/-- The parts of a text that is joined from solid parts with signs between them. -/
theorem parts_join {pieces : List Text} (nonempty : pieces ≠ [])
    (solid : ∀ piece ∈ pieces, IsSolid piece) (noSign : ∀ piece ∈ pieces, Term.diamond ∉ piece) :
    parts (join (lit " ◇ ") pieces) = pieces := by
  -- After a sign the rest of the text begins with a blank.
  suffices general : ∀ lead : Text, IsBlank lead →
      (splitAt Term.diamond (lead ++ join (lit " ◇ ") pieces)).map trim = pieces by
    exact general [] (by simp [IsBlank])
  induction pieces with
  | nil => exact absurd rfl nonempty
  | cons piece more ih =>
      intro lead blank
      have solidPiece := solid piece List.mem_cons_self
      have noSignPiece := noSign piece List.mem_cons_self
      have noSignLead : Term.diamond ∉ lead := fun hm => absurd (blank _ hm) (by decide)
      by_cases last : more = []
      · subst more
        have whole : trim (lead ++ piece ++ []) = piece :=
          trim_around blank solidPiece (by simp [IsBlank])
        rw [join_singleton, splitAt_of_not_mem (by simp [noSignLead, noSignPiece])]
        simpa using whole
      · have text : lead ++ join (lit " ◇ ") (piece :: more) =
            (lead ++ piece ++ [0x20]) ++ Term.diamond :: ([0x20] ++ join (lit " ◇ ") more) := by
          have sign : lit " ◇ " = [0x20, Term.diamond, 0x20] := rfl
          rw [join_cons last, sign]
          simp
        have absent : Term.diamond ∉ lead ++ piece ++ [0x20] := by
          simp only [List.mem_append, List.mem_singleton, noSignLead, noSignPiece, false_or]
          decide
        rw [text, splitAt_append_mark absent, List.map_cons,
          trim_around blank solidPiece (by decide)]
        rw [ih last (fun p hp => solid p (List.mem_cons_of_mem _ hp))
          (fun p hp => noSign p (List.mem_cons_of_mem _ hp)) [0x20] (by decide)]

theorem fill_ne_nil (limit : Signed) (line : Text) (parts : List Text) :
    fill limit line parts ≠ [] := by
  induction parts generalizing line with
  | nil => simp [fill]
  | cons part parts ih =>
      rw [fill]
      split
      · exact ih _
      · simp

/-- Filling lines only chooses at which signs to break. -/
theorem join_fill (limit : Signed) (line : Text) (parts : List Text) :
    join (lit " ◇ ") (fill limit line parts) = join (lit " ◇ ") (line :: parts) := by
  induction parts generalizing line with
  | nil => rfl
  | cons part parts ih =>
      rw [fill]
      split
      · rw [ih]
        by_cases last : parts = []
        · subst parts
          rw [join_singleton, join_cons (by simp), join_singleton]
        · rw [join_cons last, join_cons (by simp), join_cons last]
          simp
      · rw [join_cons (fill_ne_nil _ _ _), ih]
        exact (join_cons (by simp)).symm

/-- A text in several parts is put on one line only where it fits. -/
theorem fits_of_fill_eq_singleton {limit : Signed} {line : Text} {parts : List Text} {x : Text}
    (h : fill limit line parts = [x]) (several : parts ≠ []) : fits limit x = true := by
  induction parts generalizing line with
  | nil => exact absurd rfl several
  | cons part parts ih =>
      rw [fill] at h
      split at h
      · next fitting =>
        by_cases last : parts = []
        · subst parts
          cases h
          exact fitting
        · exact ih h last
      · rw [List.cons.injEq] at h
        exact absurd h.2 (fill_ne_nil _ _ _)

variable {t : Term} (limit : Signed)

theorem trim_lean (named : t.IsNamed) : trim t.lean = t.lean := by
  cases t with
  | var name =>
      have solid : IsSolid name := (named name (by simp [Term.names])).isSolid
      have whole : trim ([] ++ name ++ []) = name := trim_around isBlank_nil solid isBlank_nil
      simpa [Term.lean] using whole
  | op left right =>
      apply trim_of_solid_ends
      · intro u first
        rw [Term.lean_op] at first
        cases first
        decide
      · intro u last
        have ending : (Term.op left right).lean.getLast? = some Term.closeMark := by
          simp [Term.lean_op, List.getLast?_cons, List.getLast?_append]
        rw [ending] at last
        cases last
        decide

/-- The lines of a side, as the filling of its parts. -/
theorem sideLines_lean (named : t.IsNamed) : ∃ first more, t.pieces [] [] = first :: more ∧
    sideLines limit t.lean = if fits limit t.lean then [t.lean] else fill limit first more := by
  obtain ⟨first, more, parted⟩ := List.exists_cons_of_ne_nil (t.pieces_ne_nil [] [])
  have whole : join (lit " ◇ ") (t.pieces [] []) = t.lean := by simp [Term.join_pieces]
  have solid : ∀ piece ∈ t.pieces [] [], IsSolid piece := by
    intro piece hp u hu
    by_contra blank
    refine Term.not_mem_pieces ?_ (by simp) (by simp) ?_ ?_ piece hp hu
    · intro name hn hu
      simp [(named name hn).isSolid u hu] at blank
    · rintro rfl
      exact blank rfl
    · rintro rfl
      exact blank rfl
  have noSign : ∀ piece ∈ t.pieces [] [], Term.diamond ∉ piece :=
    Term.not_mem_pieces (fun name hn hm => absurd ((named name hn).isWord_of_mem _ hm) (by decide))
      (by simp) (by simp) (by decide) (by decide)
  have cut : parts t.lean = first :: more := by
    rw [← whole, parts_join (by simp [parted]) solid noSign, parted]
  refine ⟨first, more, parted, ?_⟩
  simp [sideLines, trim_lean named, cut]

/-- The lines of a side, joined with the sign again, are the side. -/
theorem join_sideLines (named : t.IsNamed) :
    join (lit " ◇ ") (sideLines limit t.lean) = t.lean := by
  obtain ⟨first, more, parted, filled⟩ := sideLines_lean limit named
  rw [filled]
  split
  · simp
  · rw [join_fill, ← parted]
    simp [Term.join_pieces]

theorem sideLines_ne_nil (named : t.IsNamed) : sideLines limit t.lean ≠ [] := by
  obtain ⟨first, more, -, filled⟩ := sideLines_lean limit named
  rw [filled]
  split
  · simp
  · exact fill_ne_nil _ _ _

/-- A side stays on one line exactly if it fits or has no sign to be broken at. -/
theorem sideLines_eq_singleton_iff (named : t.IsNamed) :
    sideLines limit t.lean = [t.lean] ↔ fits limit t.lean = true ∨ t.operations = 0 := by
  obtain ⟨first, more, parted, filled⟩ := sideLines_lean limit named
  have count : more.length = t.operations := by
    have := t.length_pieces [] []
    rw [parted, List.length_cons] at this
    omega
  rw [filled]
  split
  · next fitting => simp [fitting]
  · next wide =>
    constructor
    · intro single
      refine .inr ?_
      by_contra some
      have several : more ≠ [] := by
        rintro rfl
        exact some count.symm
      exact wide (fits_of_fill_eq_singleton single several)
    · rintro (fitting | none)
      · exact absurd fitting wide
      · have nothing : more = [] := List.length_eq_zero_iff.mp (count.trans none)
        have whole := t.join_pieces [] []
        rw [parted, nothing, join_singleton] at whole
        simp [nothing, fill, whole]

end Layout

end MagmaTrace
