import MagmaTrace.Calc
import MagmaTrace.Proofs.Parentheses
import MagmaTrace.Proofs.Wrapping

/-! # What the layout of a step keeps

A step is written in one of three layouts. All of them keep everything but white space and
the operation signs at which a side is broken, so a step is what it would be on one line
exactly when no side is broken, and exactly then its printed sides read back.
-/

namespace MagmaTrace

open Text

namespace CalcStep

/-- Whether the two sides are put on one line. -/
def fitsTogether (o : Options) (s : CalcStep) : Bool :=
  o.maxLineLength.atLeast (s.lhs.length + s.rhs.length)

/-- The lines that a side of the step is written on. -/
def linesOf (o : Options) (s : CalcStep) (side : Text) : List Text :=
  if s.fitsTogether o then [side] else Layout.sideLines o.maxLineLength side

/-- A side of the step as it is written. -/
def printed (o : Options) (s : CalcStep) (side : Text) : Text :=
  join (newline :: indent) (s.linesOf o side)

/-- What stands between the sides. -/
def equals (o : Options) (s : CalcStep) : Text :=
  if s.fitsTogether o then lit " = " else lit " =\n" ++ indent

/-- What follows the sides. -/
def closing (o : Options) (s : CalcStep) : Text :=
  lit " := by\n" ++ indent ++ o.tactic ++ lit " [" ++ s.justification ++ lit "]"

/-- The step on one line. -/
def oneLine (o : Options) (s : CalcStep) : Text :=
  s.lhs ++ lit " = " ++ s.rhs ++ lit " := by " ++ o.tactic ++ lit " [" ++ s.justification ++ lit "]"

/-- A side that is not broken: the sides fit together, or it fits by itself, or it has no
    operation sign. -/
def IsUnbroken (o : Options) (s : CalcStep) (side : Term) : Prop :=
  s.fitsTogether o = true ∨ Layout.fits o.maxLineLength side.lean = true ∨ side.operations = 0

instance (o : Options) (s : CalcStep) (side : Term) : Decidable (s.IsUnbroken o side) :=
  inferInstanceAs (Decidable (_ ∨ _))

/-- The three layouts have one shape. -/
theorem write_eq (o : Options) (s : CalcStep) :
    s.write o = s.printed o s.lhs ++ s.equals o ++ s.printed o s.rhs ++ s.closing o := by
  have space : lit " := by\n" = lit " " ++ lit ":= by\n" := rfl
  unfold write printed linesOf equals closing fitsTogether
  by_cases together : o.maxLineLength.atLeast (s.lhs.length + s.rhs.length) = true
  · simp only [together, if_true, join_singleton, space, List.append_assoc]
  · simp only [together, if_false, Bool.false_eq_true, Layout.wrapSide, space, List.append_assoc]

theorem isBlank_newline_indent : IsBlank (newline :: indent) := by decide

theorem solid_printed (o : Options) (s : CalcStep) (side : Text) :
    solid (s.printed o side) = solid (s.linesOf o side).flatten :=
  solid_join isBlank_newline_indent _

theorem solid_equals (o : Options) (s : CalcStep) : solid (s.equals o) = lit "=" := by
  unfold equals
  split <;> decide

theorem solid_closing (o : Options) (s : CalcStep) : solid (s.closing o) =
    lit ":=by" ++ solid o.tactic ++ lit "[" ++ solid s.justification ++ lit "]" := by
  have opening : solid (lit " := by\n") = lit ":=by" := by decide
  have blank : solid indent = [] := by decide
  have bracket : solid (lit " [") = lit "[" := by decide
  have bracket' : solid (lit "]") = lit "]" := by decide
  simp only [closing, solid_append, opening, blank, bracket, bracket', List.append_nil]

theorem solid_oneLine (o : Options) (s : CalcStep) :
    solid (s.oneLine o) = solid s.lhs ++ lit "=" ++ solid s.rhs ++ solid (s.closing o) := by
  have sign : solid (lit " = ") = lit "=" := by decide
  have opening : solid (lit " := by ") = lit ":=by" := by decide
  have bracket : solid (lit " [") = lit "[" := by decide
  have bracket' : solid (lit "]") = lit "]" := by decide
  rw [solid_closing]
  simp only [oneLine, solid_append, sign, opening, bracket, bracket', List.append_assoc]

/-! ## Sides that are terms -/

section

variable (o : Options) (s : CalcStep) {side : Term}

/-- The lines of a side, joined with the sign again, are the side. -/
theorem join_linesOf (named : side.IsNamed) :
    join (lit " ◇ ") (s.linesOf o side.lean) = side.lean := by
  unfold linesOf
  split
  · simp
  · exact Layout.join_sideLines _ named

theorem linesOf_ne_nil (named : side.IsNamed) : s.linesOf o side.lean ≠ [] := by
  unfold linesOf
  split
  · simp
  · exact Layout.sideLines_ne_nil _ named

theorem linesOf_eq_singleton_iff (named : side.IsNamed) :
    s.linesOf o side.lean = [side.lean] ↔ s.IsUnbroken o side := by
  unfold linesOf IsUnbroken
  by_cases together : s.fitsTogether o = true
  · simp [together]
  · simp [together, Layout.sideLines_eq_singleton_iff _ named]

/-- Each break loses one sign. -/
theorem count_linesOf (named : side.IsNamed) :
    (s.linesOf o side.lean).flatten.count Term.diamond + ((s.linesOf o side.lean).length - 1) =
      side.lean.count Term.diamond := by
  have sign : (lit " ◇ ").count Term.diamond = 1 := by decide
  have total := count_join Term.diamond (lit " ◇ ") (s.linesOf_ne_nil o named)
  rw [s.join_linesOf o named, sign, Nat.mul_one] at total
  exact total.symm

theorem isUnbroken_iff_length (named : side.IsNamed) :
    s.IsUnbroken o side ↔ (s.linesOf o side.lean).length - 1 = 0 := by
  rw [← s.linesOf_eq_singleton_iff o named]
  constructor
  · intro single
    rw [single]
    rfl
  · intro short
    have whole := s.join_linesOf o named
    obtain ⟨line, more, lines⟩ := List.exists_cons_of_ne_nil (s.linesOf_ne_nil o named)
    rw [lines, List.length_cons, Nat.add_sub_cancel, List.length_eq_zero_iff] at short
    rw [lines, short, join_singleton] at whole
    rw [lines, short, whole]

/-- A printed side reads back exactly if it is not broken. -/
theorem ofLean_printed_iff (named : side.IsNamed) :
    Term.ofLean (s.printed o side.lean) = .ok side ↔ s.IsUnbroken o side := by
  constructor
  · intro read
    have signs := Term.count_diamond_of_ofLean read
    have all := Term.count_diamond_of_ofLean (Term.ofLean_lean named)
    have kept := s.count_linesOf o named
    rw [← count_solid (by decide), solid_printed, count_solid (by decide)] at signs
    rw [s.isUnbroken_iff_length o named]
    omega
  · intro unbroken
    rw [printed, (s.linesOf_eq_singleton_iff o named).mpr unbroken, join_singleton]
    exact Term.ofLean_lean named

end

/-- A step between terms loses white space and the signs at which a side is broken, and
    nothing else. It is what it would be on one line, and a printed side reads back, exactly
    where no side is broken. -/
theorem write_loses_only_broken_signs {l r : Term} (hl : l.IsNamed) (hr : r.IsNamed)
    (justification : Text) (line : Nat) (o : Options) :
    let s : CalcStep := ⟨l.lean, r.lean, justification, line⟩
    s.write o = s.printed o l.lean ++ s.equals o ++ s.printed o r.lean ++ s.closing o ∧
    solid (s.write o) =
      solid (s.linesOf o l.lean).flatten ++ lit "=" ++ solid (s.linesOf o r.lean).flatten ++
        lit ":=by" ++ solid o.tactic ++ lit "[" ++ solid justification ++ lit "]" ∧
    join (lit " ◇ ") (s.linesOf o l.lean) = l.lean ∧
    join (lit " ◇ ") (s.linesOf o r.lean) = r.lean ∧
    (solid (s.write o) = solid (s.oneLine o) ↔ s.IsUnbroken o l ∧ s.IsUnbroken o r) ∧
    (Term.ofLean (s.printed o l.lean) = .ok l ↔ s.IsUnbroken o l) ∧
    (Term.ofLean (s.printed o r.lean) = .ok r ↔ s.IsUnbroken o r) := by
  intro s
  have shape : s.write o =
      s.printed o l.lean ++ s.equals o ++ s.printed o r.lean ++ s.closing o := s.write_eq o
  have written : solid (s.write o) = solid (s.linesOf o l.lean).flatten ++ lit "=" ++
      solid (s.linesOf o r.lean).flatten ++ solid (s.closing o) := by
    rw [shape]
    simp only [solid_append, solid_printed, solid_equals]
  have unbroken : solid (s.write o) = solid (s.oneLine o) ↔
      s.IsUnbroken o l ∧ s.IsUnbroken o r := by
    rw [written, solid_oneLine]
    constructor
    · intro same
      have signs := congrArg (List.count Term.diamond) same
      have keptLeft := s.count_linesOf o hl
      have keptRight := s.count_linesOf o hr
      simp only [List.count_append, count_solid (show isBlank Term.diamond = false by decide)]
        at signs
      rw [s.isUnbroken_iff_length o hl, s.isUnbroken_iff_length o hr]
      change _ = l.lean.count Term.diamond + _ + r.lean.count Term.diamond + _ at signs
      omega
    · rintro ⟨left, right⟩
      rw [(s.linesOf_eq_singleton_iff o hl).mpr left, (s.linesOf_eq_singleton_iff o hr).mpr right]
      simp only [List.flatten_singleton]
      rfl
  refine ⟨shape, ?_, s.join_linesOf o hl, s.join_linesOf o hr, unbroken,
    s.ofLean_printed_iff o hl, s.ofLean_printed_iff o hr⟩
  rw [written, solid_closing]
  simp only [List.append_assoc]
  rfl

/-- On lines of ten units `(x0 ◇ (x1 ◇ x2))` is broken, so its step differs from the step on
    one line and the side does not read back; the other side is short and does. -/
theorem write_on_narrow_lines :
    let l : Term := .op (.var (lit "x0")) (.op (.var (lit "x1")) (.var (lit "x2")))
    let r : Term := .var (lit "x0")
    let o : Options := { Options.standard with maxLineLength := .ofNat 10 }
    let s : CalcStep := ⟨l.lean, r.lean, lit "op_law", 1⟩
    l.IsNamed ∧ r.IsNamed ∧ solid (s.write o) ≠ solid (s.oneLine o) ∧
      Term.ofLean (s.printed o l.lean) ≠ .ok l ∧ Term.ofLean (s.printed o r.lean) = .ok r := by
  intro l r o s
  have hl : l.IsNamed := by decide
  have hr : r.IsNamed := by decide
  obtain ⟨-, -, -, -, same, left, right⟩ :=
    write_loses_only_broken_signs hl hr (lit "op_law") 1 o
  refine ⟨hl, hr, fun e => absurd (same.mp e).1 (by decide), fun e => absurd (left.mp e) (by decide),
    right.mpr (by decide)⟩

/-- Breaking lines does not change white space alone: the sign at a break is lost. -/
theorem sign_lost_at_break :
    ¬ ∀ (l r : Term) (justification : Text) (line : Nat) (o : Options),
      l.IsNamed → r.IsNamed → o.maxLineLength.atLeast 1 = true →
      let s : CalcStep := ⟨l.lean, r.lean, justification, line⟩
      solid (s.write o) = solid (s.oneLine o) := by
  intro claimed
  have narrow := claimed (.op (.var (lit "x0")) (.var (lit "x1"))) (.var (lit "x0"))
    (lit "op_law") 1 { Options.standard with maxLineLength := .ofNat 5 }
    (by decide) (by decide) (by decide)
  exact absurd narrow (by decide)

end CalcStep

end MagmaTrace
