import Mathlib.Data.Set.Function
import MagmaTrace.Proofs.Problems

/-! # Clauses up to renaming

The variables of a clause are numbered by first appearance, so their own names leave no trace in
it. Two equations give the same clause exactly when one is the other with its variables renamed
one to one (`Clause.eq_iff_renamed`).
-/

namespace MagmaTrace

open Text

/-! ## Renaming -/

namespace Term

variable {f g : Text → Text} {t : Term}

theorem rename_congr (agree : ∀ name ∈ t.names, f name = g name) : t.rename f = t.rename g := by
  induction t with
  | var name => rw [rename, rename, agree name (List.mem_singleton_self name)]
  | op left right ihl ihr =>
      rw [rename, rename, ihl fun name mem => agree name (List.mem_append_left _ mem),
        ihr fun name mem => agree name (List.mem_append_right _ mem)]

theorem rename_eq_self (kept : ∀ name ∈ t.names, f name = name) : t.rename f = t := by
  induction t with
  | var name => rw [rename, kept name (List.mem_singleton_self name)]
  | op left right ihl ihr =>
      rw [rename, ihl fun name mem => kept name (List.mem_append_left _ mem),
        ihr fun name mem => kept name (List.mem_append_right _ mem)]

end Term

/-! ## First mentions of renamed members -/

section

variable {α β : Type} [DecidableEq α] [DecidableEq β] {σ : α → β}

theorem addNew_map {seen : List α} {x : α} (injective : Set.InjOn σ {y | y ∈ x :: seen}) :
    addNew (seen.map σ) (σ x) = (addNew seen x).map σ := by
  have seenBefore : σ x ∈ seen.map σ ↔ x ∈ seen := by
    constructor
    · intro mem
      obtain ⟨y, old, same⟩ := List.mem_map.mp mem
      exact injective (List.mem_cons_of_mem x old) List.mem_cons_self same ▸ old
    · exact List.mem_map_of_mem
  unfold addNew
  by_cases old : x ∈ seen
  · rw [if_pos old, if_pos (seenBefore.mpr old)]
  · rw [if_neg old, if_neg (mt seenBefore.mp old), List.map_append, List.map_singleton]

theorem foldl_addNew_map {seen xs : List α} (injective : Set.InjOn σ {y | y ∈ seen ∨ y ∈ xs}) :
    (xs.map σ).foldl addNew (seen.map σ) = (xs.foldl addNew seen).map σ := by
  induction xs generalizing seen with
  | nil => rfl
  | cons x xs ih =>
      have here : Set.InjOn σ {y | y ∈ x :: seen} :=
        injective.mono fun y mem => (List.mem_cons.mp mem).elim
          (fun same => .inr (same ▸ List.mem_cons_self)) .inl
      have later : Set.InjOn σ {y | y ∈ addNew seen x ∨ y ∈ xs} := by
        refine injective.mono ?_
        rintro y (mem | mem)
        · rcases mem_addNew.mp mem with old | rfl
          · exact .inl old
          · exact .inr List.mem_cons_self
        · exact .inr (List.mem_cons_of_mem x mem)
      rw [List.map_cons, List.foldl_cons, List.foldl_cons, addNew_map here, ih later]

/-- Members renamed one to one are first mentioned in the same order. -/
theorem firstMentions_map {xs : List α} (injective : Set.InjOn σ {x | x ∈ xs}) :
    firstMentions (xs.map σ) = (firstMentions xs).map σ :=
  foldl_addNew_map (injective.mono fun _ mem => mem.resolve_left List.not_mem_nil)

end

namespace Clause

theorem appearing_eq {names : List Text} (notOp : lit "op" ∉ names) :
    appearing names = firstMentions names := by
  rw [appearing, List.filter_eq_self.mpr]
  intro name mem
  rw [decide_eq_true_eq]
  rintro rfl
  exact notOp mem

/-- The new names of the variables by first appearance are X0, X1, … -/
theorem map_newName (names : List Text) : (appearing names).map (newName names) =
    (List.range (appearing names).length).map variableName := by
  have distinct : (appearing names).Nodup := nodup_firstMentions _
  apply List.ext_getElem
  · simp
  · intro place inside _
    have bound : place < (appearing names).length := by simpa using inside
    rw [List.getElem_map, newName_of_mem (List.getElem_mem bound), distinct.idxOf_getElem,
      List.getElem_map, List.getElem_range]

section

variable {l r l' r' : Term} {σ : Text → Text}

theorem ext_iff {A C : Clause} : A = C ↔ A.formula = C.formula ∧ A.vars = C.vars := by
  cases A
  cases C
  exact Clause.mk.injEq .. ▸ Iff.rfl

/-- A clause does not show the names of the equation's variables. -/
theorem ofTerms_rename (notOp : lit "op" ∉ l.names ++ r.names)
    (notOp' : lit "op" ∉ (l.names ++ r.names).map σ)
    (injective : Set.InjOn σ {name | name ∈ l.names ++ r.names}) :
    ofTerms (l.rename σ) (r.rename σ) = ofTerms l r := by
  have names : (l.rename σ).names ++ (r.rename σ).names = (l.names ++ r.names).map σ := by
    rw [Term.names_rename, Term.names_rename, List.map_append]
  have places : appearing ((l.names ++ r.names).map σ) =
      (appearing (l.names ++ r.names)).map σ := by
    rw [appearing_eq notOp', appearing_eq notOp, firstMentions_map injective]
  have sameNames : ∀ name ∈ l.names ++ r.names,
      newName ((l.names ++ r.names).map σ) (σ name) = newName (l.names ++ r.names) name := by
    have numbered := map_newName ((l.names ++ r.names).map σ)
    rw [places, List.length_map, ← map_newName, List.map_map, List.map_inj_left] at numbered
    intro name mem
    exact numbered name (mem_appearing.mpr ⟨mem, fun same => notOp (same ▸ mem)⟩)
  have equation : equationOf (l.rename σ) (r.rename σ) = equationOf l r := by
    rw [equationOf, names, Term.rename_rename, Term.rename_rename, equationOf,
      Term.rename_congr fun name mem => sameNames name (List.mem_append_left _ mem),
      Term.rename_congr fun name mem => sameNames name (List.mem_append_right _ mem)]
  refine ext_iff.mpr ⟨?_, ?_⟩
  · rw [formula_ofTerms, equation, formula_ofTerms]
  · rw [vars_ofTerms, names, places, List.length_map, vars_ofTerms]

theorem newName_injOn (notOp : lit "op" ∉ l.names ++ r.names) :
    Set.InjOn (newName (l.names ++ r.names)) {name | name ∈ l.names ++ r.names} :=
  fun _ memA _ memB same => injOn_newName notOp memA memB (congrArg _ same)

/-- Equations that take the same form are each other with their variables renamed. -/
theorem exists_bijOn_of_equationOf (notOp : lit "op" ∉ l.names ++ r.names)
    (notOp' : lit "op" ∉ l'.names ++ r'.names) (same : equationOf l r = equationOf l' r') :
    ∃ σ : Text → Text, Set.BijOn σ {name | name ∈ l.names ++ r.names}
      {name | name ∈ l'.names ++ r'.names} ∧ l.rename σ = l' ∧ r.rename σ = r' := by
  let f := newName (l.names ++ r.names)
  let f' := newName (l'.names ++ r'.names)
  have apart : Set.InjOn f {name | name ∈ l.names ++ r.names} := newName_injOn notOp
  have apart' : Set.InjOn f' {name | name ∈ l'.names ++ r'.names} := newName_injOn notOp'
  obtain ⟨left, right⟩ := Expression.equation.inj same
  have names : (l.names ++ r.names).map f = (l'.names ++ r'.names).map f' := by
    rw [← names_equationOf, same, names_equationOf]
  -- A variable of the first is renamed to the variable of the second with the same new name.
  let back := Function.invFunOn f' {name | name ∈ l'.names ++ r'.names}
  have partner {name : Text} (mem : name ∈ l.names ++ r.names) :
      ∃ name' ∈ {name | name ∈ l'.names ++ r'.names}, f' name' = f name := by
    have shown : f name ∈ (l'.names ++ r'.names).map f' := names ▸ List.mem_map_of_mem mem
    exact List.mem_map.mp shown
  have lands {name : Text} (mem : name ∈ l.names ++ r.names) :
      back (f name) ∈ l'.names ++ r'.names := Function.invFunOn_mem (partner mem)
  have agrees {name : Text} (mem : name ∈ l.names ++ r.names) :
      f' (back (f name)) = f name := Function.invFunOn_eq (partner mem)
  have returns : ∀ name ∈ l'.names ++ r'.names, back (f' name) = name :=
    fun name mem => apart'.leftInvOn_invFunOn mem
  refine ⟨fun name => back (f name), ⟨fun name mem => lands mem, ?_, ?_⟩, ?_, ?_⟩
  · intro a memA b memB alike
    exact apart memA memB ((agrees memA).symm.trans ((congrArg f' alike).trans (agrees memB)))
  · intro name' mem'
    have shown : f' name' ∈ (l.names ++ r.names).map f := names ▸ List.mem_map_of_mem mem'
    obtain ⟨name, mem, alike⟩ := List.mem_map.mp shown
    exact ⟨name, mem, (congrArg back alike).trans (returns name' mem')⟩
  · rw [← Term.rename_rename f back, left, Term.rename_rename]
    exact Term.rename_eq_self fun name mem => returns name (List.mem_append_left _ mem)
  · rw [← Term.rename_rename f back, right, Term.rename_rename]
    exact Term.rename_eq_self fun name mem => returns name (List.mem_append_right _ mem)

end

/-- The formula of a clause reads back as its equation. -/
theorem read_formula {l r : Term} (notOp : lit "op" ∉ l.names ++ r.names) :
    Expression.read (ofTerms l r).formula = .ok (equationOf l r) := by
  obtain ⟨left, right⟩ := isLettered_equationOf notOp
  rw [formula_ofTerms]
  exact Expression.read_enclosed left right

/-- Two equations without a variable `op` give the same clause exactly when one is the other with
    its variables renamed one to one. The formula reads back as the equation with its variables
    renamed one to one to X0, X1, … by first appearance, and those are listed in order. -/
theorem eq_iff_renamed {a c : Text} {A C : Clause} (acceptsA : ofLean a = .ok A)
    (acceptsC : ofLean c = .ok C) {l r l' r' : Term} (statesA : States a l r)
    (statesC : States c l' r') (notOp : lit "op" ∉ l.names ++ r.names)
    (notOp' : lit "op" ∉ l'.names ++ r'.names) :
    (A = C ↔ ∃ σ : Text → Text, Set.BijOn σ {name | name ∈ l.names ++ r.names}
      {name | name ∈ l'.names ++ r'.names} ∧ l.rename σ = l' ∧ r.rename σ = r') ∧
    ∃ f : Text → Text, Set.InjOn f {name | name ∈ l.names ++ r.names} ∧
      Expression.read A.formula = .ok (.equation (l.rename f) (r.rename f)) ∧
      A.vars = (firstMentions (l.names ++ r.names)).map f ∧
      A.vars = (List.range A.vars.length).map variableName := by
  have clauseA : A = ofTerms l r :=
    Except.ok.inj (acceptsA.symm.trans (ofLean_ok_iff.mpr ⟨l, r, statesA, rfl⟩))
  have clauseC : C = ofTerms l' r' :=
    Except.ok.inj (acceptsC.symm.trans (ofLean_ok_iff.mpr ⟨l', r', statesC, rfl⟩))
  subst clauseA clauseC
  refine ⟨⟨?_, ?_⟩, newName (l.names ++ r.names), newName_injOn notOp, read_formula notOp, ?_, ?_⟩
  · intro same
    have readSame := read_formula notOp
    rw [same, read_formula notOp'] at readSame
    exact exists_bijOn_of_equationOf notOp notOp' (Except.ok.inj readSame).symm
  · rintro ⟨σ, bijective, rfl, rfl⟩
    rw [Term.names_rename, Term.names_rename, ← List.map_append] at notOp'
    exact (ofTerms_rename notOp notOp' bijective.injOn).symm
  · rw [vars_ofTerms, ← map_newName, appearing_eq notOp]
  · rw [vars_ofTerms, List.length_map, List.length_range]

/-- Names with an underscore and names like the new ones leave no trace either. -/
theorem eq_iff_renamed_underscored : ∃ l r l' r' A,
    States (lit "_u ◇ X1 = X0 ◇ _u") l r ∧ States (lit "y ◇ x = z ◇ y") l' r' ∧
      ofLean (lit "_u ◇ X1 = X0 ◇ _u") = .ok A ∧ ofLean (lit "y ◇ x = z ◇ y") = .ok A ∧
      (∃ σ : Text → Text, Set.BijOn σ {name | name ∈ l.names ++ r.names}
        {name | name ∈ l'.names ++ r'.names} ∧ l.rename σ = l' ∧ r.rename σ = r') ∧
      A.vars = [lit "X0", lit "X1", lit "X2"] := by
  have reads {text : Text} {t : Term} (h : (Term.ofLean text).toOption = some t) :
      Term.ofLean text = .ok t := toOption_eq_some_iff.mp h
  have first : States (lit "_u ◇ X1 = X0 ◇ _u") (.op (.var (lit "_u")) (.var (lit "X1")))
      (.op (.var (lit "X0")) (.var (lit "_u"))) :=
    ⟨lit "_u ◇ X1 ", lit " X0 ◇ _u", rfl, by decide, reads (by decide +kernel),
      reads (by decide +kernel)⟩
  have second : States (lit "y ◇ x = z ◇ y") (.op (.var (lit "y")) (.var (lit "x")))
      (.op (.var (lit "z")) (.var (lit "y"))) :=
    ⟨lit "y ◇ x ", lit " z ◇ y", rfl, by decide, reads (by decide +kernel),
      reads (by decide +kernel)⟩
  have accepted := ofLean_ok_iff.mpr ⟨_, _, first, rfl⟩
  have clause : ofTerms (.op (.var (lit "y")) (.var (lit "x")))
      (.op (.var (lit "z")) (.var (lit "y"))) = ofTerms (.op (.var (lit "_u")) (.var (lit "X1")))
      (.op (.var (lit "X0")) (.var (lit "_u"))) := by decide +kernel
  have accepted' := ofLean_ok_iff.mpr ⟨_, _, second, clause⟩
  obtain ⟨same, -⟩ := eq_iff_renamed accepted accepted' first second (by decide) (by decide)
  exact ⟨_, _, _, _, _, first, second, accepted, accepted', same.mp rfl, by decide +kernel⟩

end Clause

end MagmaTrace
