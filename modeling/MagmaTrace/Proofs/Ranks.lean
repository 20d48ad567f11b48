import Mathlib.Data.List.Nodup
import MagmaTrace.Proofs.Lookup
import MagmaTrace.Proofs.Names
import MagmaTrace.Proofs.Prefix
import MagmaTrace.Renaming

/-! # Names by rank

The scope of an expression takes each of its variables to the name of its rank among their
lower-case forms. The new names are x0, x1, … without a gap or a repetition, and two variables
share one exactly when they differ in case alone.
-/

namespace MagmaTrace

open Text

theorem Expression.names_rename (f : Text → Text) (e : Expression) :
    (e.rename f).names = e.names.map f := by
  cases e with
  | bare t => exact t.names_rename f
  | equation l r => simp only [rename, names, Term.names_rename, List.map_append]

namespace Renaming

theorem rankName_injective : Function.Injective rankName := by
  intro m n same
  exact Naming.decimal_injective (List.append_cancel_left same)

theorem isIdentifier_rankName (rank : Nat) : IsIdentifier (rankName rank) :=
  isIdentifier_numbered (by decide) rank

theorem mem_canonicalOrder {names : List Text} {form : Text} :
    form ∈ canonicalOrder names ↔ form ≠ operation ∧ ∃ name ∈ names, lower name = form := by
  unfold canonicalOrder
  rw [mem_sort, mem_firstMentions]
  simp [and_comm]

theorem nodup_canonicalOrder (names : List Text) : (canonicalOrder names).Nodup :=
  (List.mergeSort_perm _ _).nodup_iff.mpr (nodup_firstMentions _)

/-- The lower-case forms of the variables among some names. -/
def forms (names : List Text) : List Text := (names.map lower).filter (· ≠ operation)

/-- Names with the same variables have the same renaming. -/
theorem ofNames_eq_of_forms {a b : List Text} (same : forms a = forms b) :
    ofNames a = ofNames b := by
  have order : canonicalOrder a = canonicalOrder b :=
    congrArg (fun forms => sort (firstMentions forms)) same
  rw [ofNames, order, ofNames]

theorem vars_ofNames (names : List Text) :
    (ofNames names).vars = (List.range (canonicalOrder names).length).map rankName :=
  Registry.values_ranked (nodup_canonicalOrder names) rankName

theorem nodup_vars (names : List Text) : (ofNames names).vars.Nodup := by
  rw [vars_ofNames]
  exact List.nodup_range.map rankName_injective

/-- A variable takes the name of its rank, in whatever case it is written. -/
theorem apply_of_form {names : List Text} {name : Text} (form : lower name ∈ canonicalOrder names) :
    (ofNames names).apply name = rankName ((canonicalOrder names).idxOf (lower name)) := by
  have found : (ofNames names).get? (lower name) =
      some (rankName ((canonicalOrder names).idxOf (lower name))) :=
    Registry.get?_ranked (nodup_canonicalOrder names) rankName form
  rw [apply, found, Option.getD_some]

theorem apply_of_mem {names : List Text} {name : Text} (mem : name ∈ names)
    (notOp : lower name ≠ operation) :
    (ofNames names).apply name = rankName ((canonicalOrder names).idxOf (lower name)) :=
  apply_of_form (mem_canonicalOrder.mpr ⟨notOp, name, mem, rfl⟩)

theorem apply_mem_vars {names : List Text} {name : Text} (mem : name ∈ names)
    (notOp : lower name ≠ operation) : (ofNames names).apply name ∈ (ofNames names).vars := by
  rw [apply_of_mem mem notOp, vars_ofNames]
  have form : lower name ∈ canonicalOrder names := mem_canonicalOrder.mpr ⟨notOp, name, mem, rfl⟩
  exact List.mem_map_of_mem (List.mem_range.mpr (List.idxOf_lt_length_of_mem form))

theorem apply_of_notMem {names : List Text} {name : Text}
    (h : lower name ∉ canonicalOrder names) : (ofNames names).apply name = name := by
  have keys : (ofNames names).keys = canonicalOrder names :=
    Registry.keys_ranked (nodup_canonicalOrder names) rankName
  have missing : (ofNames names).get? (lower name) = none := by
    rw [Option.eq_none_iff_forall_ne_some]
    intro new found
    exact h (keys ▸ Registry.mem_keys_iff.mpr ⟨new, found⟩)
  rw [apply, missing, Option.getD_none]

theorem apply_of_operation {names : List Text} {name : Text} (h : lower name = operation) :
    (ofNames names).apply name = name :=
  apply_of_notMem fun mem => (mem_canonicalOrder.mp mem).1 h

/-- What holds of the names of all ranks and of a name holds of the name it is given. -/
theorem apply_of {p : Text → Prop} (ranked : ∀ rank, p (rankName rank)) (names : List Text)
    {name : Text} (kept : p name) : p ((ofNames names).apply name) := by
  by_cases form : lower name ∈ canonicalOrder names
  · rw [apply_of_form form]
    exact ranked _
  · rwa [apply_of_notMem form]

/-- Every new name is given to some variable. -/
theorem exists_of_mem_vars {names : List Text} {new : Text} (h : new ∈ (ofNames names).vars) :
    ∃ name ∈ names, (ofNames names).apply name = new := by
  rw [vars_ofNames] at h
  obtain ⟨rank, inside, rfl⟩ := List.mem_map.mp h
  have bound := List.mem_range.mp inside
  obtain ⟨notOp, name, mem, form⟩ := mem_canonicalOrder.mp (List.getElem_mem bound)
  refine ⟨name, mem, ?_⟩
  rw [apply_of_mem mem (form ▸ notOp), form, (nodup_canonicalOrder names).idxOf_getElem]

/-- Variables share a new name exactly when they differ in case alone. -/
theorem apply_eq_iff {names : List Text} {a b : Text} (ha : a ∈ names) (hb : b ∈ names)
    (notOpA : lower a ≠ operation) (notOpB : lower b ≠ operation) :
    (ofNames names).apply a = (ofNames names).apply b ↔ lower a = lower b := by
  rw [apply_of_mem ha notOpA, apply_of_mem hb notOpB, rankName_injective.eq_iff]
  exact List.idxOf_inj (mem_canonicalOrder.mpr ⟨notOpA, a, ha, rfl⟩)

end Renaming

end MagmaTrace
