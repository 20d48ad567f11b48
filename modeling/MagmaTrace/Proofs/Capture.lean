import MagmaTrace.Proofs.Chaining

/-! # Names kept beside the names of ranks

The scope of a lemma's statement also renames the terms of its proof. Names that do not occur in
the statement are kept there as they are written, so the variables of the statement stay apart,
and so do the kept names. But a variable runs into a kept name that is spelled like the name of
its rank (`Term.leaves_shared_iff`).
-/

namespace MagmaTrace

open Text

namespace Renaming

variable {e : Expression} {a b : Text}

/-- A name is a variable of an expression, in whatever case. -/
def InScope (e : Expression) (name : Text) : Prop :=
  lower name ≠ operation ∧ ∃ v ∈ e.names, lower v = lower name

instance : Decidable (InScope e a) := inferInstanceAs (Decidable (_ ∧ _))

/-- The rank of a variable among those of an expression. -/
def rankIn (e : Expression) (name : Text) : Nat := (canonicalOrder e.names).idxOf (lower name)

/-- A variable takes a name that is kept beside it. -/
structure Captures (e : Expression) (name kept : Text) : Prop where
  inScope : InScope e name
  outside : ¬ InScope e kept
  spelled : kept = rankName (rankIn e name)

theorem apply_of_inScope (h : InScope e a) : (scope e).apply a = rankName (rankIn e a) :=
  apply_of_form (mem_canonicalOrder.mpr h)

theorem apply_of_outside (h : ¬ InScope e a) : (scope e).apply a = a :=
  apply_of_notMem fun mem => h (mem_canonicalOrder.mp mem)

theorem rankIn_inj (ha : InScope e a) : rankIn e a = rankIn e b ↔ lower a = lower b :=
  List.idxOf_inj (mem_canonicalOrder.mpr ha)

/-- A variable shares its name with a name outside the scope only by capturing it. -/
theorem apply_eq_iff_of_outside (ha : InScope e a) (hb : ¬ InScope e b) :
    (scope e).apply a = (scope e).apply b ↔ Captures e a b ∨ Captures e b a := by
  rw [apply_of_inScope ha, apply_of_outside hb]
  constructor
  · intro same
    exact .inl ⟨ha, hb, same.symm⟩
  · rintro (captures | captures)
    · exact captures.spelled.symm
    · exact absurd captures.inScope hb

theorem apply_eq_iff_captures (apart : lower a ≠ lower b) :
    (scope e).apply a = (scope e).apply b ↔ Captures e a b ∨ Captures e b a := by
  by_cases ha : InScope e a <;> by_cases hb : InScope e b
  · rw [apply_of_inScope ha, apply_of_inScope hb, rankName_injective.eq_iff, rankIn_inj ha]
    refine iff_of_false apart ?_
    rintro (captures | captures)
    · exact captures.outside hb
    · exact captures.outside ha
  · exact apply_eq_iff_of_outside ha hb
  · rw [eq_comm, or_comm]
    exact apply_eq_iff_of_outside hb ha
  · rw [apply_of_outside ha, apply_of_outside hb]
    refine iff_of_false (fun same => apart (congrArg lower same)) ?_
    rintro (captures | captures)
    · exact ha captures.inScope
    · exact hb captures.inScope

end Renaming

open Renaming

/-- Two leaves of a term that differ by more than case share a name in the scope of an expression
    exactly when one is a variable of the expression, and the other is none and is spelled like
    the name of that variable's rank. -/
theorem Term.leaves_shared_iff {e : Expression} {t : Term} {i j : Nat} {a b : Text}
    (first : t.names[i]? = some a) (second : t.names[j]? = some b) (apart : lower a ≠ lower b) :
    (t.rename (scope e).apply).names[i]? = (t.rename (scope e).apply).names[j]? ↔
      Captures e a b ∨ Captures e b a := by
  rw [names_rename, List.getElem?_map, List.getElem?_map, first, second, Option.map_some,
    Option.map_some, Option.some_inj]
  exact apply_eq_iff_captures apart

/-- A law in two variables. -/
def Expression.projection : Expression :=
  .equation (.op (.var (lit "X")) (.var (lit "Y"))) (.var (lit "X"))

/-- A term of its proof, with two names that the law does not have. -/
def Term.widened : Term := .op (.op (.var (lit "y")) (.var (lit "c"))) (.var (lit "x1"))

/-- Beside `Y` the name `x1` is captured, and `c` is not. -/
theorem Term.leaves_shared_iff_widened :
    widened.names = [lit "y", lit "c", lit "x1"] ∧
      lower (lit "y") ≠ lower (lit "x1") ∧ lower (lit "y") ≠ lower (lit "c") ∧
      (widened.rename (scope .projection).apply).names[0]? =
        (widened.rename (scope .projection).apply).names[2]? ∧
      (widened.rename (scope .projection).apply).names[0]? ≠
        (widened.rename (scope .projection).apply).names[1]? := by
  have order : canonicalOrder Expression.projection.names = [lit "x", lit "y"] :=
    sort_eq_of_perm (by decide) (by decide)
  have rank : rankIn .projection (lit "y") = 1 := by
    rw [rankIn, order]
    decide
  have apart : lower (lit "y") ≠ lower (lit "x1") := by decide
  have others : lower (lit "y") ≠ lower (lit "c") := by decide
  refine ⟨rfl, apart, others, ?_, ?_⟩
  · refine (leaves_shared_iff rfl rfl apart).mpr (.inl ⟨by decide, by decide, ?_⟩)
    rw [rank]
    decide +kernel
  · rw [Ne, leaves_shared_iff rfl rfl others]
    rintro (captures | captures)
    · have spelled := captures.spelled
      rw [rank] at spelled
      exact absurd spelled (by decide)
    · exact absurd captures.inScope (by decide)

/-! ## A captured name -/

/-- The terms on the lines of a lemma's proof. -/
def ResolvedLemma.proofTerms (l : ResolvedLemma) : List Term :=
  match l.proof with
  | none => []
  | some block => block.lines.filterMap CalcStep.side?

namespace Translation

/-- A transcript that proves a lemma about `X` by a term in which `x0` occurs as well. -/
def capturing : Text := joinLines
  [ lit "fof(h,axiom,X=X).",
    lit "fof(g,conjecture,X=X).",
    Event.proofMarker,
    lit "Lemma 1: X = X",
    lit "op(X, x0)",
    lit "= \x7b by axiom 1 (a1) \x7d",
    lit "X" ]

theorem capturing_evaluated :
    (ofTranscript capturing Options.standard).2.isOk = true ∧
    (resolution? capturing Options.standard).map (·.lemmas.map fun l =>
      (l.expression, l.proofTerms)) =
    some [(.equation (.var (lit "X")) (.var (lit "X")),
      [.op (.var (lit "X")) (.var (lit "x0")), .var (lit "X")])] := by
  decide +kernel

/-- A successful translation can give two names of a proof's term the same name. -/
theorem captured_in_proof : ∃ t, (ofTranscript capturing Options.standard).2 = .ok t ∧
    ∃ st : Stages capturing Options.standard, t.document = st.document ∧
      ∃ l ∈ st.resolution.lemmas, ∃ term ∈ l.proofTerms, ∃ a b,
        term.names[0]? = some a ∧ term.names[1]? = some b ∧ lower a ≠ lower b ∧
          (term.rename (scope l.expression).apply).names[0]? =
            (term.rename (scope l.expression).apply).names[1]? := by
  obtain ⟨translates, lemmas⟩ := capturing_evaluated
  obtain ⟨t, translated⟩ := isOk_iff.mp translates
  obtain ⟨st, document⟩ := Stages.exists_of_ofTranscript translated
  rw [st.resolution?_eq, Option.map_some, Option.some_inj, List.map_eq_singleton_iff] at lemmas
  obtain ⟨l, only, found⟩ := lemmas
  obtain ⟨law, terms⟩ := Prod.mk.inj found
  refine ⟨t, translated, st, document, l, only ▸ List.mem_singleton_self l, _,
    terms ▸ List.mem_cons_self, lit "X", lit "x0", rfl, rfl, by decide, ?_⟩
  rw [law]
  decide +kernel

end Translation

end MagmaTrace
