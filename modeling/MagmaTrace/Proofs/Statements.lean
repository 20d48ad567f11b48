import Mathlib.Data.List.Dedup
import MagmaTrace.Proofs.Chaining
import MagmaTrace.Proofs.Stages
import MagmaTrace.Proofs.Language
import MagmaTrace.Proofs.Ranks
import MagmaTrace.Proofs.Wording

/-! # What a script states

A statement is written three times over: as the definition of a declared law, as an axiom and
as a lemma within the theorem. Wherever an equation is written, its text reads back as the
equation in variables named by rank, and it is quantified over exactly these
(`Statement.read_back`).
-/

namespace MagmaTrace

open Text

namespace Text

/-- The unit that stands for white space. -/
def space : CodeUnit := 0x20

/-- A text with one space for each run of white space, the unit before it being white space
    or not. -/
def squeezeAfter : (blank : Bool) → Text → Text
  | _, [] => []
  | before, u :: rest =>
    if isBlank u then
      if before then squeezeAfter true rest else space :: squeezeAfter true rest
    else u :: squeezeAfter false rest

/-- A text with one space for each run of white space. -/
def squeeze (text : Text) : Text := squeezeAfter false text

theorem squeezeAfter_solid {text : Text} (h : IsSolid text) (nonempty : text ≠ []) (before : Bool)
    (rest : Text) : squeezeAfter before (text ++ rest) = text ++ squeezeAfter false rest := by
  induction text generalizing before with
  | nil => exact absurd rfl nonempty
  | cons u more ih =>
      obtain ⟨solid, others⟩ := List.forall_mem_cons.mp h
      rw [List.cons_append, squeezeAfter, solid, List.cons_append]
      by_cases last : more = []
      · subst more
        rfl
      · exact congrArg (u :: ·) (ih others last false)

theorem squeezeAfter_more {gap : Text} (h : IsBlank gap) (rest : Text) :
    squeezeAfter true (gap ++ rest) = squeezeAfter true rest := by
  induction gap with
  | nil => rfl
  | cons u gap ih =>
      obtain ⟨blank, others⟩ := List.forall_mem_cons.mp h
      rw [List.cons_append, squeezeAfter, blank]
      exact ih others

/-- A run of white space becomes one space. -/
theorem squeezeAfter_gap {gap : Text} (h : IsBlank gap) (nonempty : gap ≠ []) (rest : Text) :
    squeezeAfter false (gap ++ rest) = space :: squeezeAfter true rest := by
  cases gap with
  | nil => exact absurd rfl nonempty
  | cons u gap =>
      obtain ⟨blank, others⟩ := List.forall_mem_cons.mp h
      rw [List.cons_append, squeezeAfter, blank]
      exact congrArg (space :: ·) (squeezeAfter_more others rest)

end Text

namespace Term

theorem names_ne_nil (t : Term) : t.names ≠ [] := by
  cases t with
  | var name => exact List.cons_ne_nil name []
  | op left right => exact List.append_ne_nil_of_left_ne_nil left.names_ne_nil right.names

variable {t : Term} (named : t.IsNamed)
include named

/-- A printed term has no white space but single spaces within. -/
theorem squeezeAfter_lean (before : Bool) (rest : Text) :
    squeezeAfter before (t.lean ++ rest) = t.lean ++ squeezeAfter false rest := by
  induction t generalizing before rest with
  | var name =>
      have isName : IsName name := named name (List.mem_singleton_self name)
      have nonempty : name ≠ [] := by
        rintro rfl
        exact isName
      exact squeezeAfter_solid isName.isSolid nonempty before rest
  | op left right ihl ihr =>
      have gap : IsBlank [space] := by decide
      have opens : IsSolid [openMark] := by decide
      have sign : IsSolid [diamond] := by decide
      have closes : IsSolid [closeMark] := by decide
      have parts (rest : Text) : (op left right).lean ++ rest = [openMark] ++ (left.lean ++
          ([space] ++ ([diamond] ++ ([space] ++ (right.lean ++ ([closeMark] ++ rest)))))) := by
        simp [lean_op, space]
      rw [parts, squeezeAfter_solid opens (List.cons_ne_nil _ _), ihl named.left,
        squeezeAfter_gap gap (List.cons_ne_nil _ _),
        squeezeAfter_solid sign (List.cons_ne_nil _ _),
        squeezeAfter_gap gap (List.cons_ne_nil _ _), ihr named.right,
        squeezeAfter_solid closes (List.cons_ne_nil _ _), parts]
      rfl

/-- A printed term holds its names, the signs and single spaces. -/
theorem mem_lean {u : CodeUnit} (mem : u ∈ t.lean) :
    isWord u = true ∨ u ∈ [openMark, space, diamond, closeMark] := by
  induction t with
  | var name =>
      have isName : IsName name := named name (List.mem_singleton_self name)
      exact .inl (isName.isWord_of_mem u mem)
  | op left right ihl ihr =>
      have parts : (op left right).lean = [openMark] ++ left.lean ++ [space] ++ [diamond] ++
          [space] ++ right.lean ++ [closeMark] := by
        simp [lean_op, space]
      simp only [parts, List.mem_append, List.mem_singleton] at mem
      rcases mem with (((((rfl | within) | rfl) | rfl) | rfl) | within) | rfl
      · exact .inr (by simp)
      · exact ihl named.left within
      · exact .inr (by simp)
      · exact .inr (by simp)
      · exact .inr (by simp)
      · exact ihr named.right within
      · exact .inr (by simp)

theorem equalsMark_notMem_lean : Expression.equalsMark ∉ t.lean := fun mem =>
  absurd (mem_lean named mem) (by decide)

end Term

theorem Expression.names_ne_nil (e : Expression) : e.names ≠ [] := by
  cases e with
  | bare t => exact t.names_ne_nil
  | equation l r => exact List.append_ne_nil_of_left_ne_nil l.names_ne_nil r.names

namespace Statement

open Expression

/-- What a statement in a script says: with one space for each run of white space its body has
    one equals sign, between texts that read as the two terms, and it is quantified over x0, x1, …
    without repetition, which are the variables of the terms. -/
structure Says (vars : List Text) (body : Text) (lhs rhs : Term) : Prop where
  sides : ∃ left right, splitAt equalsMark (squeeze body) = [left, right] ∧
    Term.ofLean left = .ok lhs ∧ Term.ofLean right = .ok rhs
  ranks : vars = (List.range vars.length).map Renaming.rankName
  nodup : vars.Nodup
  occurring : ∀ name, name ∈ vars ↔ name ∈ lhs.names ∨ name ∈ rhs.names

/-- A statement is quantified over as many variables as its terms have names. -/
theorem Says.vars_eq {vars : List Text} {body : Text} {lhs rhs : Term}
    (h : Says vars body lhs rhs) :
    vars = (List.range (lhs.names ++ rhs.names).dedup.length).map Renaming.rankName := by
  have perm : vars.Perm (lhs.names ++ rhs.names).dedup :=
    (List.perm_ext_iff_of_nodup h.nodup (List.nodup_dedup _)).mpr fun name => by
      rw [h.occurring, List.mem_dedup, List.mem_append]
  rw [← perm.length_eq]
  exact h.ranks

/-- An equation reads back whatever white space follows its sign. -/
theorem sides_of_parts {l r : Term} (hl : l.IsNamed) (hr : r.IsNamed) {gap : Text}
    (blank : IsBlank gap) (nonempty : gap ≠ []) :
    ∃ left right, splitAt equalsMark (squeeze (l.lean ++ [space] ++ equalsMark :: (gap ++ r.lean))) =
      [left, right] ∧ Term.ofLean left = .ok l ∧ Term.ofLean right = .ok r := by
  have gapBefore : IsBlank [space] := by decide
  have sign : IsSolid [equalsMark] := by decide
  have notBlank : equalsMark ≠ space := by decide
  have parts : l.lean ++ [space] ++ equalsMark :: (gap ++ r.lean) =
      l.lean ++ ([space] ++ ([equalsMark] ++ (gap ++ (r.lean ++ [])))) := by simp
  have squeezed : squeeze (l.lean ++ [space] ++ equalsMark :: (gap ++ r.lean)) =
      (l.lean ++ [space]) ++ equalsMark :: ([space] ++ r.lean) := by
    rw [squeeze, parts, Term.squeezeAfter_lean hl,
      squeezeAfter_gap gapBefore (List.cons_ne_nil _ _), ← List.nil_append ([equalsMark] ++ _),
      squeezeAfter_more isBlank_nil, squeezeAfter_solid sign (List.cons_ne_nil _ _),
      squeezeAfter_gap blank nonempty, Term.squeezeAfter_lean hr, squeezeAfter]
    simp
  have onLeft : equalsMark ∉ l.lean ++ [space] := by
    simp [Term.equalsMark_notMem_lean hl, notBlank]
  have onRight : equalsMark ∉ [space] ++ r.lean := by
    simp [Term.equalsMark_notMem_lean hr, notBlank]
  have readLeft := Term.ofLean_around hl isBlank_nil gapBefore
  have readRight := Term.ofLean_around hr gapBefore isBlank_nil
  rw [List.nil_append] at readLeft
  rw [List.append_nil] at readRight
  exact ⟨_, _, by rw [squeezed, splitAt_append_mark onLeft, splitAt_of_not_mem onRight], readLeft,
    readRight⟩

theorem vars_ne_nil {e : Expression} (notOp : ∀ name ∈ e.names, lower name ≠ Renaming.operation) :
    (ofExpression e).vars ≠ [] := by
  obtain ⟨name, mem⟩ := List.exists_mem_of_ne_nil e.names e.names_ne_nil
  exact List.ne_nil_of_mem (Renaming.apply_mem_vars mem (notOp name mem))

section

variable {e : Expression} {lhs rhs : Term} (shape : e = .equation lhs rhs)
  (notOp : ∀ name ∈ e.names, lower name ≠ Renaming.operation)
include shape notOp

/-- In its own scope an equation has variables that a script can name. -/
theorem isNamed_in_scope : (lhs.rename (Renaming.scope e).apply).IsNamed ∧
    (rhs.rename (Renaming.scope e).apply).IsNamed := by
  have named : ∀ name ∈ e.names, IsName ((Renaming.scope e).apply name) := by
    intro name mem
    rw [Renaming.scope, Renaming.apply_of_mem mem (notOp name mem)]
    exact Renaming.isName_rankName _
  subst shape
  constructor
  all_goals
    intro new mem
    rw [Term.names_rename] at mem
    obtain ⟨name, among, rfl⟩ := List.mem_map.mp mem
  · exact named name (List.mem_append_left _ among)
  · exact named name (List.mem_append_right _ among)

/-- An equation is stated by its sides in its own scope, whatever white space follows the sign. -/
theorem says_of_parts {gap : Text} (blank : IsBlank gap) (nonempty : gap ≠ []) :
    Says (ofExpression e).vars ((lhs.rename (Renaming.scope e).apply).lean ++ [space] ++
      equalsMark :: (gap ++ (rhs.rename (Renaming.scope e).apply).lean))
      (lhs.rename (Renaming.scope e).apply) (rhs.rename (Renaming.scope e).apply) := by
  obtain ⟨namedLeft, namedRight⟩ := isNamed_in_scope shape notOp
  have vars : (ofExpression e).vars = (Renaming.ofNames e.names).vars := rfl
  have ranks := Renaming.vars_ofNames e.names
  refine ⟨sides_of_parts namedLeft namedRight blank nonempty, ?_, Renaming.nodup_vars _, ?_⟩
  · rw [vars, ranks, List.length_map, List.length_range]
  · intro new
    have among : new ∈ (lhs.rename (Renaming.scope e).apply).names ∨
        new ∈ (rhs.rename (Renaming.scope e).apply).names ↔
        ∃ name ∈ e.names, (Renaming.scope e).apply name = new := by
      rw [Term.names_rename, Term.names_rename, ← List.mem_append, ← List.map_append, shape]
      exact List.mem_map
    rw [among]
    constructor
    · exact Renaming.exists_of_mem_vars
    · rintro ⟨name, mem, rfl⟩
      exact Renaming.apply_mem_vars mem (notOp name mem)

/-- On one line an equation is stated. -/
theorem says_line : Says (ofExpression e).vars (ofExpression e).line
    (lhs.rename (Renaming.scope e).apply) (rhs.rename (Renaming.scope e).apply) := by
  have gap : IsBlank [space] := by decide
  have sign : lit " = " = [space] ++ equalsMark :: [space] := rfl
  have line : (ofExpression e).line = (lhs.rename (Renaming.scope e).apply).lean ++ [space] ++
      equalsMark :: ([space] ++ (rhs.rename (Renaming.scope e).apply).lean) := by
    rw [Statement.line, ofExpression]
    simp only [shape, rename, write, sign, List.append_assoc, List.cons_append]
  rw [line]
  exact says_of_parts shape notOp gap (List.cons_ne_nil _ _)

/-- Within any width it is stated as well. -/
theorem says_body (limit : Signed) : Says (ofExpression e).vars ((ofExpression e).body limit)
    (lhs.rename (Renaming.scope e).apply) (rhs.rename (Renaming.scope e).apply) := by
  have gap : IsBlank (newline :: indent) := by decide
  have sign : lit " =" = [space] ++ [equalsMark] := rfl
  have expression : (ofExpression e).expression =
      .equation (lhs.rename (Renaming.scope e).apply) (rhs.rename (Renaming.scope e).apply) := by
    rw [shape]
    rfl
  have line := says_line shape notOp
  rw [Statement.line, expression, write] at line
  rw [body, expression]
  simp only [Layout.equationBody]
  split
  · exact line
  · have broken := says_of_parts shape notOp gap (List.cons_ne_nil _ _)
    rw [sign]
    simpa using broken

end

/-- The definition of a law with variables. -/
theorem writeSchema_quantified {law : Law} (some : law.statement.vars ≠ []) :
    law.writeSchema = lit "abbrev Equation_" ++ law.name ++
      lit " (G : Type _) [Magma G] :=\n  ∀ " ++ join (lit " ") law.statement.vars ++
      lit " : G, " ++ law.statement.line ++ lit "\n" := by
  have named : lit "abbrev Equation_" = lit "abbrev " ++ lit "Equation_" := rfl
  have quantifier : lit " (G : Type _) [Magma G] :=\n  ∀ " =
      lit " (G : Type _) [Magma G] :=\n  " ++ lit "∀ " := rfl
  simp only [Law.writeSchema, Template.schema, Template.schemaName, Template.quantified,
    Template.spaced, some, if_false, named, quantifier, List.append_assoc]

/-- Wherever an equation is stated, in the definition of a law, in an axiom or in a lemma, its
    text reads back as its sides in its own scope and is quantified over their variables. -/
theorem read_back {e : Expression} {lhs rhs : Term} (shape : e = .equation lhs rhs)
    (notOp : ∀ name ∈ e.names, lower name ≠ Renaming.operation) (o : Options) :
    ∃ vars : List Text,
      (∀ d : Declaration, Expression.ofFormula d.formula = .ok e →
        ∃ law body, Law.ofDeclaration d = .ok law ∧
          law.writeSchema = lit "abbrev Equation_" ++ d.name ++
            lit " (G : Type _) [Magma G] :=\n  ∀ " ++ join (lit " ") vars ++ lit " : G, " ++ body ++
            lit "\n" ∧
          Says vars body (lhs.rename (Renaming.scope e).apply)
            (rhs.rename (Renaming.scope e).apply)) ∧
      (∀ a : RetainedAxiom, a.expression = e →
        ∃ body, a.law.writeAxiom o = lit "axiom " ++ a.name ++
            lit " (G : Type _) [Magma G] :\n  ∀ " ++ join (lit " ") vars ++ lit " : G, " ++ body ++
            lit "\n" ∧
          Says vars body (lhs.rename (Renaming.scope e).apply)
            (rhs.rename (Renaming.scope e).apply)) ∧
      (∀ (n : Naming) (l : ResolvedLemma) (b : Block), l.expression = e → l.isConjecture = false →
        Block.ofLemma n l = .ok b →
        ∃ body proof, b.write o = lit "  have " ++ l.name ++ lit " (" ++ join (lit " ") vars ++
            lit " : G) :\n    " ++ body ++ lit " := by\n" ++ proof ++ lit "\n" ∧
          Says vars body (lhs.rename (Renaming.scope e).apply)
            (rhs.rename (Renaming.scope e).apply)) := by
  have some := vars_ne_nil notOp
  have onOneLine := says_line shape notOp
  have withinWidth := says_body shape notOp o.maxLineLength
  refine ⟨(ofExpression e).vars, ?_, ?_, ?_⟩
  · intro d parsed
    have stated : Law.ofDeclaration d = .ok ⟨d.name, ofExpression e⟩ := by
      simp only [Law.ofDeclaration, parsed]
    exact ⟨_, _, stated, writeSchema_quantified some, onOneLine⟩
  · intro a same
    have quantifier : lit " (G : Type _) [Magma G] :\n  ∀ " =
        lit " (G : Type _) [Magma G] :\n  " ++ lit "∀ " := rfl
    refine ⟨_, ?_, withinWidth⟩
    simp only [Law.writeAxiom, RetainedAxiom.law, same, Template.retainedAxiom,
      Template.quantified, Template.spaced, some, if_false, quantifier, List.append_assoc]
  · intro n l b same auxiliary written
    obtain ⟨proof, -, rfl⟩ := Block.ofLemma_ok_iff.mp written
    have binder : lit " : G) :\n    " = lit " : G)" ++ lit " :\n    " := rfl
    refine ⟨_, proof.write o, ?_, withinWidth⟩
    simp only [auxiliary, same, Bool.false_eq_true, if_false, Block.write, Template.lemmaBlock,
      Template.binder, Template.spaced, some, binder, List.append_assoc]

/-- An equation in which one variable is written in both cases. -/
def mixedCase : Expression :=
  .equation (.op (.var (lit "Y")) (.op (.var (lit "b")) (.var (lit "y")))) (.var (lit "B"))

/-- It is declared by a formula, and as a law it has two variables. -/
theorem read_back_mixedCase :
    (∀ name ∈ mixedCase.names, lower name ≠ Renaming.operation) ∧
      Expression.ofFormula (lit "! [Y,B] : ( op(Y, op(b,y)) = B )") = .ok mixedCase ∧
      ∃ law body,
        Law.ofDeclaration
          ⟨lit "a1", .hypothesis, lit "! [Y,B] : ( op(Y, op(b,y)) = B )", 1⟩ = .ok law ∧
        law.writeSchema = lit "abbrev Equation_a1 (G : Type _) [Magma G] :=\n  ∀ x0 x1 : G, " ++
          body ++ lit "\n" ∧
        Says [lit "x0", lit "x1"] body
          (.op (.var (lit "x1")) (.op (.var (lit "x0")) (.var (lit "x1")))) (.var (lit "x0")) := by
  have notOp : ∀ name ∈ mixedCase.names, lower name ≠ Renaming.operation := by decide
  have parsed : Expression.ofFormula (lit "! [Y,B] : ( op(Y, op(b,y)) = B )") = .ok mixedCase :=
    toOption_eq_some_iff.mp (by decide +kernel)
  have order : Renaming.canonicalOrder mixedCase.names = [lit "b", lit "y"] :=
    sort_eq_of_perm (by decide) (by decide)
  have renamed : mixedCase.rename (Renaming.scope mixedCase).apply =
      .equation (.op (.var (lit "x1")) (.op (.var (lit "x0")) (.var (lit "x1"))))
        (.var (lit "x0")) := by
    simp only [Renaming.scope, Renaming.ofNames, order]
    decide +kernel
  have shape : mixedCase = .equation (.op (.var (lit "Y")) (.op (.var (lit "b")) (.var (lit "y"))))
      (.var (lit "B")) := rfl
  have opening : lit "abbrev Equation_a1 (G : Type _) [Magma G] :=\n  ∀ x0 x1 : G, " =
      lit "abbrev Equation_" ++ lit "a1" ++ lit " (G : Type _) [Magma G] :=\n  ∀ " ++
        join (lit " ") [lit "x0", lit "x1"] ++ lit " : G, " := by
    simp only [join_lit_pair, ← lit_append, String.reduceAppend]
  obtain ⟨vars, schema, -⟩ := read_back shape notOp Options.standard
  obtain ⟨law, body, stated, written, said⟩ :=
    schema ⟨lit "a1", .hypothesis, lit "! [Y,B] : ( op(Y, op(b,y)) = B )", 1⟩ parsed
  obtain ⟨left, right⟩ := Expression.equation.inj renamed
  rw [left, right] at said
  have two : vars = [lit "x0", lit "x1"] := said.vars_eq.trans (by decide +kernel)
  subst two
  exact ⟨notOp, parsed, law, body, stated, written.trans (by rw [opening]), said⟩

end Statement

end MagmaTrace
