import Mathlib.Data.List.Forall2
import MagmaTrace.Script.Basic

/-! # The wording of a script

What the parts of a script look like as text, told apart from the templates that they are made
with: which text a term, an equation, a law, an axiom, a lemma, the goal, a step and a proof have.
Each has a lemma saying that this text, and no other, is what is written.
-/

namespace MagmaTrace

open Text Renaming

/-! ## Proofs -/

/-- The text of a step: both sides stand on one line if they fit together, else each is broken
    within the width by itself, and the second begins a line. -/
inductive CalcStep.IsWritten (o : Options) (s : CalcStep) : Text → Prop where
  | line (fits : o.maxLineLength.atLeast (s.lhs.length + s.rhs.length) = true) :
      IsWritten o s (s.lhs ++ lit " = " ++ s.rhs ++ lit " := by\n        " ++ o.tactic ++
        lit " [" ++ s.justification ++ lit "]")
  | broken (wide : o.maxLineLength.atLeast (s.lhs.length + s.rhs.length) = false) :
      IsWritten o s (Layout.wrapSide s.lhs (lit "        ") o.maxLineLength ++
        lit " =\n        " ++ Layout.wrapSide s.rhs (lit "        ") o.maxLineLength ++
        lit " := by\n        " ++ o.tactic ++ lit " [" ++ s.justification ++ lit "]")

theorem CalcStep.isWritten_iff {o : Options} {s : CalcStep} {text : Text} :
    s.IsWritten o text ↔ text = s.write o := by
  have proof : lit " := by\n        " = lit " " ++ (lit ":= by\n" ++ indent) := rfl
  have sign : lit " =\n        " = lit " =\n" ++ indent := rfl
  constructor
  · rintro (fits | wide)
    · simp only [write, fits, if_true, proof, List.append_assoc]
    · simp only [write, wide, if_false, Bool.false_eq_true, proof, sign, indent, List.append_assoc]
  · rintro rfl
    cases fits : o.maxLineLength.atLeast (s.lhs.length + s.rhs.length) with
    | true =>
        have written := IsWritten.line fits
        simpa only [write, fits, if_true, proof, List.append_assoc] using written
    | false =>
        have written := IsWritten.broken fits
        simpa only [write, fits, if_false, Bool.false_eq_true, proof, sign, indent,
          List.append_assoc] using written

/-- The text of a proof by a chain of steps. -/
def IsCalc (o : Options) (steps : List CalcStep) (text : Text) : Prop :=
  ∃ written, List.Forall₂ (CalcStep.IsWritten o) steps written ∧
    text = lit "    calc\n      " ++ join (lit "\n      ") written

/-- The text of a proof by one tactic from some names, or from everything at hand if none is
    given. -/
def IsCitation (o : Options) (names : List Text) (text : Text) : Prop :=
  text = lit "    " ++ o.tactic ++ lit " " ++
    if names = [] then lit "[*]" else lit "[" ++ join (lit ", ") names ++ lit "]"

theorem isCalc_iff {o : Options} {steps : List CalcStep} {text : Text} :
    IsCalc o steps text ↔ text = (Proof.chain steps).write o := by
  have all_iff (written : List Text) : List.Forall₂ (CalcStep.IsWritten o) steps written ↔
      written = steps.map (CalcStep.write o) := by
    rw [eq_comm, ← List.forall₂_eq_eq_eq, List.forall₂_map_left_iff]
    exact ⟨.imp fun _ _ h => (CalcStep.isWritten_iff.mp h).symm,
      .imp fun _ _ h => CalcStep.isWritten_iff.mpr h.symm⟩
  simp only [IsCalc, all_iff, exists_eq_left]
  rfl

theorem isCitation_iff {o : Options} {names : List Text} {text : Text} :
    IsCitation o names text ↔ text = (Proof.citing names).write o :=
  Iff.rfl

/-! ## Terms and expressions -/

namespace Term

/-- The text of a term: a leaf stands for itself, and an operation stands in parentheses. -/
inductive IsWritten : Term → Text → Prop where
  | var (name : Text) : IsWritten (.var name) name
  | op {l r : Term} {a b : Text} (left : IsWritten l a) (right : IsWritten r b) :
      IsWritten (.op l r) (lit "(" ++ a ++ lit " ◇ " ++ b ++ lit ")")

theorem isWritten_lean (t : Term) : t.IsWritten t.lean := by
  induction t with
  | var name => exact .var name
  | op left right ihl ihr => exact .op ihl ihr

theorem isWritten_iff {t : Term} {text : Text} : t.IsWritten text ↔ text = t.lean := by
  constructor
  · intro h
    induction h with
    | var name => rfl
    | op _ _ ihl ihr => rw [ihl, ihr, lean]
  · rintro rfl
    exact t.isWritten_lean

end Term

namespace Expression

/-- The text of an expression, and of an equation within a width if one is given: on one line if
    it fits, else broken after the sign. -/
inductive IsWritten (width : Option Signed) : Expression → Text → Prop where
  | bare {t : Term} {a : Text} (term : t.IsWritten a) : IsWritten width (.bare t) a
  | line {l r : Term} {a b : Text} (left : l.IsWritten a) (right : r.IsWritten b)
      (fits : ∀ w ∈ width, w.atLeast (a ++ lit " = " ++ b).length = true) :
      IsWritten width (.equation l r) (a ++ lit " = " ++ b)
  | broken {l r : Term} {a b : Text} (left : l.IsWritten a) (right : r.IsWritten b)
      {w : Signed} (given : width = some w)
      (wide : w.atLeast (a ++ lit " = " ++ b).length = false) :
      IsWritten width (.equation l r) (a ++ lit " =\n      " ++ b)

theorem isWritten_line_iff {s : Statement} {text : Text} :
    s.expression.IsWritten none text ↔ text = s.line := by
  obtain ⟨vars, e⟩ := s
  constructor
  · intro h
    cases h with
    | bare term => exact Term.isWritten_iff.mp term
    | line left right =>
        rw [Term.isWritten_iff.mp left, Term.isWritten_iff.mp right]
        rfl
    | broken _ _ given => cases given
  · rintro rfl
    cases e with
    | bare t => exact .bare t.isWritten_lean
    | equation l r => exact .line l.isWritten_lean r.isWritten_lean (by simp)

theorem equationBody_eq (a b : Text) (limit : Signed) :
    Layout.equationBody a b Statement.indent limit =
      if limit.atLeast (a ++ lit " = " ++ b).length then a ++ lit " = " ++ b
      else a ++ lit " =\n      " ++ b := by
  have sign : lit " =\n      " = lit " =" ++ newline :: Statement.indent := rfl
  simp only [Layout.equationBody, Layout.fits, sign, List.append_assoc, List.cons_append]

theorem isWritten_body_iff {s : Statement} {limit : Signed} {text : Text} :
    s.expression.IsWritten (some limit) text ↔ text = s.body limit := by
  obtain ⟨vars, e⟩ := s
  constructor
  · intro h
    cases h with
    | bare term => exact Term.isWritten_iff.mp term
    | line left right fits =>
        rw [Term.isWritten_iff] at left right
        subst left right
        exact ((equationBody_eq _ _ limit).trans (if_pos (fits limit rfl))).symm
    | broken left right given wide =>
        rw [Term.isWritten_iff] at left right
        subst left right
        cases given
        exact ((equationBody_eq _ _ limit).trans (if_neg (by rw [wide]; decide))).symm
  · rintro rfl
    cases e with
    | bare t => exact .bare t.isWritten_lean
    | equation l r =>
        have body : (Statement.mk vars (.equation l r)).body limit =
          Layout.equationBody l.lean r.lean Statement.indent limit := rfl
        rw [body, equationBody_eq]
        split
        · next fits =>
            refine .line l.isWritten_lean r.isWritten_lean fun w given => ?_
            cases given
            exact fits
        · next wide =>
            exact .broken l.isWritten_lean r.isWritten_lean rfl (Bool.eq_false_iff.mpr wide)

/-! ## Laws and axioms -/

/-- The text of an expression in variables named by rank, quantified over these if it has any. -/
def IsQuantified (e : Expression) (width : Option Signed) (text : Text) : Prop :=
  ∃ body, (e.rename (scope e).apply).IsWritten width body ∧
    text = if (scope e).vars = [] then body
      else lit "∀ " ++ join (lit " ") (scope e).vars ++ lit " : G, " ++ body

/-- The text that defines an expression as a law, on one line. -/
def IsLaw (e : Expression) (name text : Text) : Prop :=
  ∃ stated, e.IsQuantified none stated ∧ text = lit "abbrev Equation_" ++ name ++
    lit " (G : Type _) [Magma G] :=\n  " ++ stated ++ lit "\n"

/-- The text that states an expression as an axiom. -/
def IsAxiom (e : Expression) (o : Options) (name text : Text) : Prop :=
  ∃ stated, e.IsQuantified (some o.maxLineLength) stated ∧ text = lit "axiom " ++ name ++
    lit " (G : Type _) [Magma G] :\n  " ++ stated ++ lit "\n"

theorem isLaw_iff {e : Expression} {name text : Text} :
    e.IsLaw name text ↔ text = (Law.mk name (.ofExpression e)).writeSchema := by
  have named : lit "abbrev Equation_" = lit "abbrev " ++ lit "Equation_" := rfl
  have body {text : Text} : (e.rename (scope e).apply).IsWritten none text ↔
      text = (Statement.ofExpression e).line := isWritten_line_iff (s := .ofExpression e)
  simp only [IsLaw, IsQuantified, body, exists_eq_left, Law.writeSchema, Template.schema,
    Template.schemaName, Template.quantified, Template.spaced, named, List.append_assoc]
  rfl

theorem isAxiom_iff (a : RetainedAxiom) {o : Options} {text : Text} :
    a.expression.IsAxiom o a.name text ↔ text = a.law.writeAxiom o := by
  have body {text : Text} : (a.expression.rename (scope a.expression).apply).IsWritten
      (some o.maxLineLength) text ↔ text = (Statement.ofExpression a.expression).body
        o.maxLineLength := isWritten_body_iff (s := .ofExpression a.expression)
  simp only [IsAxiom, IsQuantified, body, exists_eq_left]
  rfl

/-! ## Lemmas and the goal -/

/-- The text that states an expression as a lemma and proves it. -/
def IsHave (e : Expression) (o : Options) (name proof text : Text) : Prop :=
  ∃ body, (e.rename (scope e).apply).IsWritten (some o.maxLineLength) body ∧
    text = lit "  have " ++ name ++
      (if (scope e).vars = [] then []
        else lit " (" ++ join (lit " ") (scope e).vars ++ lit " : G)") ++
      lit " :\n    " ++ body ++ lit " := by\n" ++ proof ++ lit "\n"

/-- The text that proves the goal, after introducing the variables of an expression if it has
    any. -/
def IsShow (e : Expression) (proof text : Text) : Prop :=
  text = lit "  show _ by\n" ++
    (if (scope e).vars = [] then []
      else lit "    intros " ++ join (lit " ") (scope e).vars ++ lit "\n") ++
    proof ++ lit "\n"

theorem isHave_iff {e : Expression} {name text : Text} {proof : Proof} {o : Options} :
    e.IsHave o name (proof.write o) text ↔
      text = (Block.auxiliary name (Statement.ofExpression e) proof).write o := by
  have body {text : Text} : (e.rename (scope e).apply).IsWritten (some o.maxLineLength) text ↔
      text = (Statement.ofExpression e).body o.maxLineLength :=
    isWritten_body_iff (s := .ofExpression e)
  simp only [IsHave, body, exists_eq_left]
  rfl

theorem isShow_iff {e : Expression} {proof : Proof} {o : Options} {text : Text} :
    e.IsShow (proof.write o) text ↔
      text = (Block.goal (Statement.ofExpression e).vars proof).write o :=
  Iff.rfl

end Expression

/-- The goal's block, if there are variables to introduce. -/
theorem Block.write_goal {vars : List Text} (some : vars ≠ []) (proof : Proof) (o : Options) :
    (goal vars proof).write o = lit "  show _ by\n    intros " ++ join (lit " ") vars ++
      lit "\n" ++ proof.write o ++ lit "\n" := by
  have shown : lit "  show _ by\n    intros " = lit "  show _ by\n" ++ lit "    intros " := rfl
  simp only [write, Template.goalBlock, Template.spaced, some, if_false, shown, List.append_assoc]

/-- The goal's block if it is proved from everything at hand. -/
theorem Block.write_goal_citing {vars : List Text} (some : vars ≠ []) (o : Options) :
    (goal vars (.citing [])).write o = lit "  show _ by\n    intros " ++ join (lit " ") vars ++
      lit "\n    " ++ o.tactic ++ lit " [*]\n" := by
  have next : lit "\n    " = lit "\n" ++ lit "    " := rfl
  have all : lit " [*]\n" = lit " " ++ lit "[*]" ++ lit "\n" := rfl
  rw [write_goal some, isCitation_iff.mpr rfl]
  simp only [next, all, if_pos, List.append_assoc]

/-- A declaration states the law of its formula. -/
theorem Law.ofDeclaration_ok_iff {d : Declaration} {law : Law} :
    ofDeclaration d = .ok law ↔
      ∃ e, Expression.ofFormula d.formula = .ok e ∧ law = ⟨d.name, .ofExpression e⟩ := by
  unfold ofDeclaration
  cases Expression.ofFormula d.formula with
  | error e => simp
  | ok e => simp [eq_comm]

theorem Template.theoremHeader_eq (hypothesis conjecture hypothesisName : Text) :
    theoremHeader hypothesis conjecture hypothesisName = lit "theorem Equation_" ++ hypothesis ++
      lit "_implies_Equation_" ++ conjecture ++ lit " (G : Type _) [Magma G]\n    (" ++
      hypothesisName ++ lit " : Equation_" ++ hypothesis ++ lit " G) : Equation_" ++ conjecture ++
      lit " G :=\n" := by
  have states : lit "theorem Equation_" = lit "theorem " ++ lit "Equation_" := rfl
  have implies : lit "_implies_Equation_" = lit "_implies_" ++ lit "Equation_" := rfl
  have given : lit " : Equation_" = lit " : " ++ lit "Equation_" := rfl
  have concluded : lit " G) : Equation_" = lit " G) : " ++ lit "Equation_" := rfl
  simp only [theoremHeader, schemaName, states, implies, given, concluded, List.append_assoc]

end MagmaTrace
