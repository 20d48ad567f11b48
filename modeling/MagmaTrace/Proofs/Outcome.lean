import Mathlib.Data.List.Forall2

/-! # Computations that may fail

What the success of a computation says about the success of its parts, and what its failure says
about theirs.
-/

namespace MagmaTrace

variable {ε ε' α β : Type}

theorem bind_ok_iff {outcome : Except ε α} {next : α → Except ε β} {b : β} :
    (outcome >>= next) = .ok b ↔ ∃ a, outcome = .ok a ∧ next a = .ok b := by
  cases outcome with
  | error e => simp [bind, Except.bind]
  | ok a => simp [bind, Except.bind]

theorem map_ok_iff {outcome : Except ε α} {f : α → β} {b : β} :
    (f <$> outcome) = .ok b ↔ ∃ a, outcome = .ok a ∧ f a = b := by
  cases outcome with
  | error e => simp [Functor.map, Except.map]
  | ok a => simp [Functor.map, Except.map]

theorem mapError_ok_iff {outcome : Except ε α} {blame : ε → ε'} {a : α} :
    outcome.mapError blame = .ok a ↔ outcome = .ok a := by
  cases outcome with
  | error e => simp [Except.mapError]
  | ok a => simp [Except.mapError]

theorem bind_error_iff {outcome : Except ε α} {next : α → Except ε β} {e : ε} :
    (outcome >>= next) = .error e ↔
      outcome = .error e ∨ ∃ a, outcome = .ok a ∧ next a = .error e := by
  cases outcome with
  | error e => simp [bind, Except.bind]
  | ok a => simp [bind, Except.bind]

theorem map_error_iff {outcome : Except ε α} {f : α → β} {e : ε} :
    (f <$> outcome) = .error e ↔ outcome = .error e := by
  cases outcome with
  | error e => simp [Functor.map, Except.map]
  | ok a => simp [Functor.map, Except.map]

theorem mapError_error_iff {outcome : Except ε α} {blame : ε → ε'} {e' : ε'} :
    outcome.mapError blame = .error e' ↔ ∃ e, outcome = .error e ∧ blame e = e' := by
  cases outcome with
  | error e => simp [Except.mapError]
  | ok a => simp [Except.mapError]

theorem pure_ok_iff {a b : α} : (pure a : Except ε α) = .ok b ↔ a = b :=
  Except.ok.injEq a b ▸ Iff.rfl

theorem isOk_iff {outcome : Except ε α} : outcome.isOk = true ↔ ∃ a, outcome = .ok a := by
  cases outcome with
  | error e => simp [Except.isOk, Except.toBool]
  | ok a => simp [Except.isOk, Except.toBool]

theorem toOption_eq_some_iff {outcome : Except ε α} {a : α} :
    outcome.toOption = some a ↔ outcome = .ok a := by
  cases outcome with
  | error e => simp [Except.toOption]
  | ok a => simp [Except.toOption]

/-- A computation made for each member of a list succeeds when all do. -/
theorem mapM_ok_iff {f : α → Except ε β} {xs : List α} {ys : List β} :
    xs.mapM f = .ok ys ↔ List.Forall₂ (fun x y => f x = .ok y) xs ys := by
  induction xs generalizing ys with
  | nil =>
      rw [List.mapM_nil, pure_ok_iff, List.forall₂_nil_left_iff]
      exact eq_comm
  | cons x xs ih =>
      simp only [List.mapM_cons, bind_ok_iff, pure_ok_iff, ih, List.forall₂_cons_left_iff]
      constructor
      · rintro ⟨y, hy, rest, hrest, rfl⟩
        exact ⟨y, rest, hy, hrest, rfl⟩
      · rintro ⟨y, rest, hy, hrest, rfl⟩
        exact ⟨y, hy, rest, hrest, rfl⟩

/-- A computation made for each member of a list fails with the first of them for which it does. -/
theorem exists_first_of_mapM_error {f : α → Except ε β} {xs : List α} {e : ε}
    (h : xs.mapM f = .error e) : ∃ earlier x later, xs = earlier ++ x :: later ∧
      (∀ other ∈ earlier, ∃ y, f other = .ok y) ∧ f x = .error e := by
  induction xs with
  | nil => cases h
  | cons x xs ih =>
      rw [List.mapM_cons] at h
      rcases bind_error_iff.mp h with here | ⟨y, here, failed⟩
      · exact ⟨[], x, xs, rfl, by simp, here⟩
      · rcases bind_error_iff.mp failed with failed | ⟨_, -, ⟨⟩⟩
        obtain ⟨earlier, first, later, rfl, succeed, fails⟩ := ih failed
        refine ⟨x :: earlier, first, later, rfl, ?_, fails⟩
        rw [List.forall_mem_cons]
        exact ⟨⟨y, here⟩, succeed⟩

/-- A computation made for each member of a list fails when one of them does. -/
theorem exists_of_mapM_error {f : α → Except ε β} {xs : List α} {e : ε}
    (h : xs.mapM f = .error e) : ∃ x ∈ xs, f x = .error e := by
  obtain ⟨_, x, _, rfl, -, failed⟩ := exists_first_of_mapM_error h
  exact ⟨x, by simp, failed⟩

theorem exists_of_forall₂_left {r : α → β → Prop} {xs : List α} {ys : List β}
    (h : List.Forall₂ r xs ys) {x : α} (mem : x ∈ xs) : ∃ y ∈ ys, r x y := by
  induction h with
  | nil => cases mem
  | cons here _ ih =>
      rcases List.mem_cons.mp mem with rfl | later
      · exact ⟨_, List.mem_cons_self, here⟩
      · obtain ⟨y, found, related⟩ := ih later
        exact ⟨y, List.mem_cons_of_mem _ found, related⟩

theorem exists_of_forall₂_right {r : α → β → Prop} {xs : List α} {ys : List β}
    (h : List.Forall₂ r xs ys) {y : β} (mem : y ∈ ys) : ∃ x ∈ xs, r x y :=
  exists_of_forall₂_left h.flip mem

/-- A computation succeeds for a list exactly when it does for each member. -/
theorem exists_mapM_ok_iff {f : α → Except ε β} {xs : List α} :
    (∃ ys, xs.mapM f = .ok ys) ↔ ∀ x ∈ xs, ∃ y, f x = .ok y := by
  constructor
  · rintro ⟨ys, made⟩ x mem
    obtain ⟨y, -, here⟩ := exists_of_forall₂_left (mapM_ok_iff.mp made) mem
    exact ⟨y, here⟩
  · intro all
    rcases made : xs.mapM f with e | ys
    · obtain ⟨x, mem, failed⟩ := exists_of_mapM_error made
      obtain ⟨y, here⟩ := all x mem
      rw [here] at failed
      cases failed
    · exact ⟨ys, rfl⟩

/-- Related members with the same image have it in order. -/
theorem map_eq_map_of_forall₂ {γ : Type} {f : α → γ} {g : β → γ} {xs : List α} {ys : List β}
    (h : List.Forall₂ (fun x y => f x = g y) xs ys) : xs.map f = ys.map g := by
  rw [← List.forall₂_eq_eq_eq, List.forall₂_map_left_iff, List.forall₂_map_right_iff]
  exact h

/-- What succeeds for the members of a list succeeds for those of a list like it, with results like
    the first ones. -/
theorem exists_forall₂_of_alike {γ δ : Type} {f g : α → Except ε β} {p : α → γ} {q : β → δ}
    (carries : ∀ x x' y, p x' = p x → f x = .ok y → ∃ y', g x' = .ok y' ∧ q y' = q y)
    {xs xs' : List α} {ys : List β} (made : List.Forall₂ (fun x y => f x = .ok y) xs ys)
    (alike : xs'.map p = xs.map p) :
    ∃ ys', List.Forall₂ (fun x y => g x = .ok y) xs' ys' ∧ ys'.map q = ys.map q := by
  induction made generalizing xs' with
  | nil =>
      rw [List.map_nil, List.map_eq_nil_iff] at alike
      exact ⟨[], alike ▸ .nil, rfl⟩
  | @cons x y xs ys here _ ih =>
      obtain ⟨x', rest, rfl, same, later⟩ := List.map_eq_cons_iff.mp alike
      obtain ⟨y', here', sameResult⟩ := carries x x' y same here
      obtain ⟨ys', later', sameResults⟩ := ih later
      exact ⟨y' :: ys', .cons here' later', by rw [List.map_cons, List.map_cons, sameResult, sameResults]⟩

theorem exists_append_of_forall₂ {r : α → β → Prop} {xs xs' : List α} {ys : List β}
    (h : List.Forall₂ r (xs ++ xs') ys) :
    ∃ zs zs', ys = zs ++ zs' ∧ List.Forall₂ r xs zs ∧ List.Forall₂ r xs' zs' :=
  ⟨_, _, (List.take_append_drop xs.length ys).symm, (List.forall₂_take_append _ _ _ h.flip).flip,
    (List.forall₂_drop_append _ _ _ h.flip).flip⟩

end MagmaTrace
