import Mathlib.Data.Finset.Card
import Mathlib.Data.List.Dedup
import MagmaTrace.Proofs.Normalization

/-! # Ranks by counting

The rank of a variable is the number of variables that come before it in the order of texts. So
the new names depend on the set of variables only, and renaming an expression gives every leaf the
name that its own variable counts, whatever the leaves are called before
(`Renaming.changed_to_ranks`).
-/

namespace MagmaTrace

open Text

/-- In an increasing list a member stands after as many others as are smaller. -/
theorem Text.idxOf_of_pairwise_lt {texts : List Text} (increasing : texts.Pairwise (· < ·))
    {text : Text} (mem : text ∈ texts) :
    texts.idxOf text = (texts.filter (· < text)).length := by
  induction texts with
  | nil => cases mem
  | cons first rest ih =>
      obtain ⟨before, later⟩ := List.pairwise_cons.mp increasing
      by_cases same : first = text
      · subst same
        have none : rest.filter (· < first) = [] := by
          rw [List.filter_eq_nil_iff]
          intro other behind
          simpa using List.le_of_lt (before other behind)
        simp [none, List.lt_irrefl]
      · have behind : text ∈ rest := (List.mem_cons.mp mem).resolve_left (Ne.symm same)
        have smaller : first < text := before text behind
        simp [List.idxOf_cons_ne _ same, ih later behind, smaller]

/-! ## Changed leaves -/

theorem Term.changed_rename {R : Text → Text → Prop} {f : Text → Text} {t : Term}
    (h : ∀ name ∈ t.names, R name (f name)) : Changed R t (t.rename f) := by
  induction t with
  | var name => exact .var (h name (List.mem_singleton_self name))
  | op left right ihl ihr =>
      exact .op (ihl fun name mem => h name (List.mem_append_left _ mem))
        (ihr fun name mem => h name (List.mem_append_right _ mem))

/-- Renaming keeps the shape of an expression and changes each leaf by itself. -/
theorem Expression.changed_rename {R : Text → Text → Prop} {f : Text → Text} {e : Expression}
    (h : ∀ name ∈ e.names, R name (f name)) : Changed R e (e.rename f) := by
  cases e with
  | bare term => exact .bare (Term.changed_rename h)
  | equation lhs rhs =>
      exact .equation (Term.changed_rename fun name mem => h name (List.mem_append_left _ mem))
        (Term.changed_rename fun name mem => h name (List.mem_append_right _ mem))

namespace Renaming

/-! ## Counting -/

/-- The variables among some names, in lower case. -/
def formSet (names : List Text) : Finset Text := (names.map lower).toFinset.erase operation

/-- The number of variables before a text in the order of texts. -/
def countBefore (vars : Finset Text) (text : Text) : Nat := (vars.filter (· < text)).card

theorem mem_formSet {names : List Text} {form : Text} :
    form ∈ formSet names ↔ form ≠ operation ∧ ∃ name ∈ names, lower name = form := by
  simp [formSet]

theorem toFinset_canonicalOrder (names : List Text) :
    (canonicalOrder names).toFinset = formSet names := by
  ext form
  rw [List.mem_toFinset, mem_canonicalOrder, mem_formSet]

theorem pairwise_lt_canonicalOrder (names : List Text) :
    (canonicalOrder names).Pairwise (· < ·) :=
  pairwise_lt_sort (nodup_firstMentions _)

theorem length_canonicalOrder (names : List Text) :
    (canonicalOrder names).length = (formSet names).card := by
  rw [← toFinset_canonicalOrder, List.toFinset_card_of_nodup (nodup_canonicalOrder names)]

theorem idxOf_canonicalOrder {names : List Text} {form : Text} (mem : form ∈ formSet names) :
    (canonicalOrder names).idxOf form = countBefore (formSet names) form := by
  have listed : form ∈ canonicalOrder names := mem_canonicalOrder.mpr (mem_formSet.mp mem)
  have distinct := (nodup_canonicalOrder names).filter (· < form)
  rw [idxOf_of_pairwise_lt (pairwise_lt_canonicalOrder names) listed, countBefore,
    ← toFinset_canonicalOrder, ← List.toFinset_card_of_nodup distinct, List.toFinset_filter]
  simp

/-- A variable takes the name that its place among the variables counts. -/
theorem apply_of_mem_formSet {names : List Text} {name : Text} (mem : lower name ∈ formSet names) :
    (ofNames names).apply name = rankName (countBefore (formSet names) (lower name)) := by
  rw [apply_of_form (mem_canonicalOrder.mpr (mem_formSet.mp mem)), idxOf_canonicalOrder mem]

/-- Names with the same variables have the same renaming. -/
theorem ofNames_eq_of_formSet {a b : List Text} (same : formSet a = formSet b) :
    ofNames a = ofNames b := by
  have perm : (canonicalOrder a).Perm (canonicalOrder b) := by
    rw [List.perm_ext_iff_of_nodup (nodup_canonicalOrder a) (nodup_canonicalOrder b)]
    intro form
    rw [← List.mem_toFinset, ← List.mem_toFinset, toFinset_canonicalOrder,
      toFinset_canonicalOrder, same]
  have order : canonicalOrder a = canonicalOrder b :=
    perm.eq_of_pairwise (fun _ _ _ _ first second => absurd second (List.lt_asymm first))
      (pairwise_lt_canonicalOrder a) (pairwise_lt_canonicalOrder b)
  rw [ofNames, order, ofNames]

/-- What a leaf becomes: a variable takes the name of its rank, and the operation's name is kept. -/
inductive Ranked (vars : Finset Text) : Text → Text → Prop where
  | ranked {name : Text} (among : lower name ∈ vars) :
      Ranked vars name (rankName (countBefore vars (lower name)))
  | kept {name : Text} (isOp : lower name = operation) : Ranked vars name name

theorem ranked_apply {names : List Text} {name : Text} (mem : name ∈ names) :
    Ranked (formSet names) name ((ofNames names).apply name) := by
  by_cases isOp : lower name = operation
  · rw [apply_of_operation isOp]
    exact .kept isOp
  · have among : lower name ∈ formSet names := mem_formSet.mpr ⟨isOp, name, mem, rfl⟩
    rw [apply_of_mem_formSet among]
    exact .ranked among

theorem keys_ofNames (names : List Text) : (ofNames names).keys = canonicalOrder names :=
  Registry.keys_ranked (nodup_canonicalOrder names) rankName

/-- Renaming an expression in its own scope keeps its shape, gives every variable the name of its
    rank, which is the number of variables before it, and keeps the operation's name in any case.
    Two variables share a new name exactly when they differ in case alone. The renaming of some
    names depends on the set of their lower-case forms only: it takes these, without the
    operation's, in increasing order to x0, x1, … -/
theorem changed_to_ranks (e : Expression) :
    e.Changed (Ranked (formSet e.names)) (e.rename (scope e).apply) ∧
      (∀ (i j : Nat) (a b : Text), e.names[i]? = some a → e.names[j]? = some b →
        lower a ≠ operation → lower b ≠ operation →
        ((e.rename (scope e).apply).names[i]? = (e.rename (scope e).apply).names[j]? ↔
          lower a = lower b)) ∧
      ∀ names : List Text,
        (∀ others, (names.map lower).toFinset = (others.map lower).toFinset →
          ofNames names = ofNames others) ∧
        (ofNames names).keys.Pairwise (· < ·) ∧
        (ofNames names).keys.toFinset = (names.map lower).toFinset.erase operation ∧
        (ofNames names).vars = (List.range (ofNames names).size).map rankName := by
  refine ⟨Expression.changed_rename fun name mem => ranked_apply mem, ?_, ?_⟩
  · intro i j a b first second notOpA notOpB
    rw [Expression.names_rename, List.getElem?_map, List.getElem?_map, first, second,
      Option.map_some, Option.map_some, Option.some_inj]
    exact apply_eq_iff (List.mem_of_getElem? first) (List.mem_of_getElem? second) notOpA notOpB
  · intro names
    have size : (ofNames names).size = (canonicalOrder names).length := by
      rw [← keys_ofNames, Registry.keys, List.length_map, Registry.size]
    refine ⟨fun others same => ofNames_eq_of_formSet ?_, ?_, ?_, ?_⟩
    · rw [formSet, same, formSet]
    · rw [keys_ofNames]
      exact pairwise_lt_canonicalOrder names
    · rw [keys_ofNames, toFinset_canonicalOrder, formSet]
    · rw [size, vars_ofNames]

/-- An equation whose variables are called like the new ones. -/
def lookalikes : Expression :=
  .equation (.op (.var (lit "x2")) (.var (lit "OP"))) (.op (.var (lit "X10")) (.var (lit "x1")))

/-- Each of its leaves is renamed once: `x10` becomes `x1`, and `x1` becomes `x0`. -/
theorem changed_to_ranks_lookalikes :
    lookalikes.rename (scope lookalikes).apply =
      .equation (.op (.var (lit "x2")) (.var (lit "OP"))) (.op (.var (lit "x1")) (.var (lit "x0"))) ∧
    (lookalikes.rename (scope lookalikes).apply).names[2]? ≠
      (lookalikes.rename (scope lookalikes).apply).names[3]? := by
  have order : canonicalOrder lookalikes.names = [lit "x1", lit "x10", lit "x2"] :=
    sort_eq_of_perm (by decide) (by decide)
  obtain ⟨-, shared, -⟩ := changed_to_ranks lookalikes
  refine ⟨?_, fun same => ?_⟩
  · rw [scope, ofNames, order]
    decide +kernel
  · have alike := (shared 2 3 (lit "X10") (lit "x1") rfl rfl (by decide) (by decide)).mp same
    exact absurd alike (by decide)

end Renaming

end MagmaTrace
