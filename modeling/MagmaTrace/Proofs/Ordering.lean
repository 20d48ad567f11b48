import MagmaTrace.Proofs.Searching

/-! # Lists in the order of names

Where the members of a list have different names, there is one way to put them in the order of
their names. So a list in that order is determined by its members (`IncreasingBy.eq_of_mem_iff`).
-/

namespace MagmaTrace

open Text

section

variable {α : Type} {name : α → Text} {xs ys : List α}

/-- The names of the members of a list are in increasing order, and so no two are the same. -/
def IncreasingBy (name : α → Text) (xs : List α) : Prop := xs.Pairwise fun x y => name x < name y

/-- The members of a list in the order of their names. -/
def sortBy (name : α → Text) (xs : List α) : List α := xs.mergeSort fun x y => name x ≤ name y

instance (name : α → Text) (xs : List α) : Decidable (IncreasingBy name xs) :=
  inferInstanceAs (Decidable (xs.Pairwise fun x y => name x < name y))

theorem increasingBy_iff : IncreasingBy name xs ↔ (xs.map name).Pairwise (· < ·) :=
  List.pairwise_map.symm

theorem IncreasingBy.nodup (h : IncreasingBy name xs) : xs.Nodup := by
  refine List.Pairwise.imp ?_ h
  rintro x _ before rfl
  exact List.lt_irrefl _ before

theorem IncreasingBy.eq_of_mem_iff (hx : IncreasingBy name xs) (hy : IncreasingBy name ys)
    (same : ∀ x, x ∈ xs ↔ x ∈ ys) : xs = ys := by
  have perm : xs.Perm ys := (List.perm_ext_iff_of_nodup hx.nodup hy.nodup).mpr same
  refine perm.eq_of_pairwise ?_ hx hy
  intro x y _ _ before after
  exact absurd (List.lt_trans before after) (List.lt_irrefl _)

theorem mem_sortBy {x : α} : x ∈ sortBy name xs ↔ x ∈ xs := (List.mergeSort_perm xs _).mem_iff

theorem increasingBy_sortBy (distinct : (xs.map name).Nodup) :
    IncreasingBy name (sortBy name xs) := by
  have ordered : (sortBy name xs).Pairwise fun x y => decide (name x ≤ name y) = true :=
    List.pairwise_mergeSort (fun x y z => by simpa using List.le_trans)
      (fun x y => by simpa using List.le_total (name x) (name y)) xs
  have perm : ((sortBy name xs).map name).Perm (xs.map name) := (List.mergeSort_perm xs _).map name
  have different := List.pairwise_map.mp (perm.nodup_iff.mpr distinct)
  refine (ordered.and different).imp ?_
  intro x y ⟨before, other⟩
  exact Std.lt_of_le_of_ne (by simpa using before) other

theorem sortBy_eq_of_perm (perm : xs.Perm ys) (h : IncreasingBy name ys) : sortBy name xs = ys := by
  have distinct : (ys.map name).Nodup := List.pairwise_map.mpr
    (h.imp fun before same => absurd (same ▸ before) (List.lt_irrefl _))
  refine (increasingBy_sortBy ((perm.map name).nodup_iff.mpr distinct)).eq_of_mem_iff h fun x => ?_
  rw [mem_sortBy, perm.mem_iff]

end

end MagmaTrace
