import MagmaTrace.Text.Basic

/-! # The order of texts

Texts are compared unit by unit, which is the lexicographic order of lists. Sorting is
stable, and a collection of names without repetition keeps the order of first mention.
-/

namespace MagmaTrace.Text

/-- Texts in increasing order. -/
def sort (texts : List Text) : List Text := texts.mergeSort (· ≤ ·)

end MagmaTrace.Text

namespace MagmaTrace

/-- Put `x` at the end of a list that does not hold it yet. -/
def addNew {α : Type} [DecidableEq α] (xs : List α) (x : α) : List α :=
  if x ∈ xs then xs else xs ++ [x]

/-- The members of a list in order of first mention. -/
def firstMentions {α : Type} [DecidableEq α] (xs : List α) : List α := xs.foldl addNew []

theorem mem_addNew {α : Type} [DecidableEq α] {xs : List α} {x y : α} :
    y ∈ addNew xs x ↔ y ∈ xs ∨ y = x := by
  unfold addNew
  split
  · next h => exact ⟨.inl, fun hy => hy.elim id (fun e => e ▸ h)⟩
  · simp

theorem nodup_addNew {α : Type} [DecidableEq α] {xs : List α} (h : xs.Nodup) (x : α) :
    (addNew xs x).Nodup := by
  unfold addNew
  split
  · exact h
  · next hx =>
    rw [List.nodup_append]
    exact ⟨h, by simp, fun a ha b hb => by rintro rfl; simp_all⟩

end MagmaTrace
