import MagmaTrace.Proofs.Counting
import MagmaTrace.Proofs.Normalization

/-! # Renaming twice

The names of ranks are put in the order of texts when they are renamed again, and from the
eleventh variable on that is not the order of their numbers: `x10` comes before `x2`. So a text
whose variables are x0, x1, … stays as it is exactly when there are at most ten of them
(`Renaming.normalize_again_iff`).
-/

namespace MagmaTrace

open Text

/-! ## The names of a renamed text -/

namespace Piece

/-- A piece with its name changed. -/
def change (f : Text → Text) : Piece → Piece
  | name text => name (f text)
  | other u => other u

/-- A text that goes on with no name is written so that it still does not. -/
theorem head?_written {f : Text → Text} {text : Text} (stop : ∀ u ∈ text.head?, isWord u = false) :
    ∀ u ∈ ((cut text).flatMap (write f)).head?, isWord u = false := by
  cases text with
  | nil => simp [cut]
  | cons u rest =>
      have mark : isLetter u = false := isLetter_of_not_isWord (stop u rfl)
      rw [cut_cons_other mark]
      exact stop

/-- A text is cut at the same places after its names are changed to other names. -/
theorem cut_written {f : Text → Text} (keeps : ∀ name, IsIdentifier name → IsIdentifier (f name))
    (text : Text) : cut ((cut text).flatMap (write f)) = (cut text).map (change f) := by
  fun_induction cut text with
  | case1 => simp [cut]
  | case2 u rest letter ih =>
      have isName : IsIdentifier (u :: rest.takeWhile isWord) :=
        ⟨letter, fun v mem => List.mem_takeWhile_imp mem⟩
      have stop : ∀ v ∈ (rest.dropWhile isWord).head?, isWord v = false :=
        head?_dropWhile isWord rest
      rw [List.flatMap_cons, write, cut_stopped _ (head?_written stop),
        cut_identifier (keeps _ isName), ih]
      rfl
  | case3 u rest notLetter ih =>
      have mark : isLetter u = false := by simpa using notLetter
      rw [List.flatMap_cons, write, List.singleton_append, cut_cons_other mark, ih]
      rfl

end Piece

namespace Renaming

theorem namesIn_applyText (names : List Text) (text : Text) :
    namesIn ((ofNames names).applyText text) = (namesIn text).map (ofNames names).apply := by
  have keeps : ∀ name, IsIdentifier name → IsIdentifier ((ofNames names).apply name) :=
    fun name isName => apply_of isIdentifier_rankName names isName
  have found : Piece.name? ∘ Piece.change (ofNames names).apply =
      Option.map (ofNames names).apply ∘ Piece.name? := by
    funext piece
    cases piece <;> rfl
  rw [namesIn, applyText, Piece.cut_written keeps, List.filterMap_map, found, namesIn,
    List.map_filterMap]
  rfl

/-- A text is changed by a renaming unless all its names are kept. -/
theorem applyText_eq_self_iff {names : List Text} {text : Text} :
    (ofNames names).applyText text = text ↔
      ∀ name ∈ namesIn text, (ofNames names).apply name = name := by
  constructor
  · intro same
    have kept := namesIn_applyText names text
    rw [same, ← List.map_id (namesIn text), List.map_map, eq_comm, List.map_inj_left] at kept
    exact kept
  · intro kept
    have pieces : ∀ piece ∈ Piece.cut text,
        Piece.write (ofNames names).apply piece = Piece.write id piece := by
      intro piece mem
      cases piece with
      | name old => exact kept old (List.mem_filterMap.mpr ⟨_, mem, rfl⟩)
      | other u => rfl
    rw [applyText, List.flatMap_congr pieces, Piece.write_cut]

/-! ## Canonical texts -/

/-- A text whose variables are the names of the first ranks. -/
structure IsCanonical (n : Nat) (text : Text) : Prop where
  ranked : ∀ name ∈ namesIn text, lower name ≠ operation → ∃ rank < n, name = rankName rank
  all : ∀ rank < n, rankName rank ∈ namesIn text

/-- A renamed text is canonical. -/
theorem isCanonical_normalize (text : Text) :
    IsCanonical (normalize text).2.length (normalize text).1 := by
  have size : (normalize text).2.length = (canonicalOrder (namesIn text)).length := by
    rw [normalize, vars_ofNames, List.length_map, List.length_range]
  constructor
  · intro name mem notOp
    rw [normalize, namesIn_applyText] at mem
    obtain ⟨old, among, rfl⟩ := List.mem_map.mp mem
    have notOpOld : lower old ≠ operation := by
      intro isOp
      rw [apply_of_operation isOp] at notOp
      exact notOp isOp
    have form := mem_canonicalOrder.mpr ⟨notOpOld, old, among, rfl⟩
    exact ⟨_, size ▸ List.idxOf_lt_length_of_mem form, apply_of_form form⟩
  · intro rank inside
    have listed : rankName rank ∈ (ofNames (namesIn text)).vars := by
      rw [vars_ofNames]
      exact List.mem_map_of_mem (List.mem_range.mpr (size ▸ inside))
    obtain ⟨name, among, named⟩ := exists_of_mem_vars listed
    rw [normalize, namesIn_applyText, ← named]
    exact List.mem_map_of_mem among

theorem lower_rankName (rank : Nat) : lower (rankName rank) = rankName rank :=
  lower_numbered (by decide) (isDigit_of_mem_decimal rank)

theorem rankName_ne_operation (rank : Nat) : rankName rank ≠ operation := by
  intro same
  exact absurd (List.cons.inj same).1 (by decide)

/-- The names of the first ranks. -/
def firstNames (n : Nat) : Finset Text := (Finset.range n).image rankName

theorem IsCanonical.formSet_eq {n : Nat} {text : Text} (h : IsCanonical n text) :
    formSet (namesIn text) = firstNames n := by
  ext form
  rw [mem_formSet, firstNames, Finset.mem_image]
  constructor
  · rintro ⟨notOp, name, mem, rfl⟩
    obtain ⟨rank, inside, rfl⟩ := h.ranked name mem notOp
    exact ⟨rank, Finset.mem_range.mpr inside, (lower_rankName rank).symm⟩
  · rintro ⟨rank, inside, rfl⟩
    exact ⟨rankName_ne_operation rank, _, h.all rank (Finset.mem_range.mp inside),
      lower_rankName rank⟩

/-! ## The order of the names of ranks -/

/-- Names with one digit are in the order of their ranks. -/
theorem rankName_lt_iff {j k : Nat} (hj : j < 10) (hk : k < 10) :
    rankName j < rankName k ↔ j < k := by
  have name {rank : Nat} (small : rank < 10) : rankName rank = [0x78, digit rank] := by
    rw [rankName, decimal, if_pos small]
    rfl
  have value {rank : Nat} (small : rank < 10) : (digit rank).toNat = 48 + rank := by
    unfold digit
    simp only [Nat.toUInt16, UInt16.toNat_ofNat']
    omega
  rw [name hj, name hk, List.cons_lt_cons_iff, List.cons_lt_cons_iff]
  simp [UInt16.lt_iff_toNat_lt, value hj, value hk]

theorem countBefore_of_le_ten {n rank : Nat} (small : n ≤ 10) (inside : rank < n) :
    countBefore (firstNames n) (rankName rank) = rank := by
  have before : (firstNames n).filter (· < rankName rank) = firstNames rank := by
    ext name
    simp only [firstNames, Finset.mem_filter, Finset.mem_image, Finset.mem_range]
    constructor
    · rintro ⟨⟨other, within, rfl⟩, smaller⟩
      exact ⟨other, (rankName_lt_iff (by omega) (by omega)).mp smaller, rfl⟩
    · rintro ⟨other, smaller, rfl⟩
      exact ⟨⟨other, by omega, rfl⟩, (rankName_lt_iff (by omega) (by omega)).mpr smaller⟩
  rw [countBefore, before, firstNames, Finset.card_image_of_injective _ rankName_injective,
    Finset.card_range]

/-- From eleven names on at least three come before the third. -/
theorem two_lt_countBefore {n : Nat} (large : 10 < n) :
    2 < countBefore (firstNames n) (rankName 2) := by
  have before : ({0, 1, 10} : Finset Nat).image rankName ⊆
      (firstNames n).filter (· < rankName 2) := by
    intro name mem
    obtain ⟨rank, among, rfl⟩ := Finset.mem_image.mp mem
    have smaller : rankName 0 < rankName 2 ∧ rankName 1 < rankName 2 ∧
        rankName 10 < rankName 2 := by decide +kernel
    have inside : rank < n ∧ rankName rank < rankName 2 := by
      simp only [Finset.mem_insert, Finset.mem_singleton] at among
      rcases among with rfl | rfl | rfl
      · exact ⟨by omega, smaller.1⟩
      · exact ⟨by omega, smaller.2.1⟩
      · exact ⟨large, smaller.2.2⟩
    exact Finset.mem_filter.mpr
      ⟨Finset.mem_image_of_mem rankName (Finset.mem_range.mpr inside.1), inside.2⟩
  have three := Finset.card_le_card before
  rwa [Finset.card_image_of_injective _ rankName_injective] at three

/-! ## Renaming again -/

namespace IsCanonical

variable {n : Nat} {text : Text} (h : IsCanonical n text)
include h

theorem vars_eq : (normalize text).2 = (List.range n).map rankName := by
  rw [normalize, vars_ofNames, length_canonicalOrder, h.formSet_eq, firstNames,
    Finset.card_image_of_injective _ rankName_injective, Finset.card_range]

theorem apply_rankName {rank : Nat} (inside : rank < n) :
    (ofNames (namesIn text)).apply (rankName rank) =
      rankName (countBefore (firstNames n) (rankName rank)) := by
  have among : lower (rankName rank) ∈ formSet (namesIn text) := by
    rw [h.formSet_eq, lower_rankName]
    exact Finset.mem_image_of_mem rankName (Finset.mem_range.mpr inside)
  rw [apply_of_mem_formSet among, h.formSet_eq, lower_rankName]

theorem normalize_eq_self_iff : (normalize text).1 = text ↔ n ≤ 10 := by
  rw [normalize, applyText_eq_self_iff]
  constructor
  · intro kept
    by_contra large
    have third : 2 < n := by omega
    have same := kept _ (h.all 2 third)
    rw [h.apply_rankName third, rankName_injective.eq_iff] at same
    have more := two_lt_countBefore (n := n) (by omega)
    omega
  · intro small name mem
    by_cases isOp : lower name = operation
    · exact apply_of_operation isOp
    · obtain ⟨rank, inside, rfl⟩ := h.ranked name mem isOp
      rw [h.apply_rankName inside, countBefore_of_le_ten small inside]

end IsCanonical

/-! ## Canonical texts of every size -/

theorem namesIn_join {names : List Text} (named : ∀ name ∈ names, IsIdentifier name) :
    namesIn (join (lit " ") names) = names := by
  induction names with
  | nil => exact namesIn_nil
  | cons name rest ih =>
      have isName := named name List.mem_cons_self
      cases rest with
      | nil => rw [join_singleton, namesIn_identifier isName]
      | cons second others =>
          have later := ih fun other mem => named other (List.mem_cons_of_mem _ mem)
          have stop : ∀ u ∈ (lit " " ++ join (lit " ") (second :: others)).head?,
              isWord u = false := by
            rintro u ⟨⟩
            decide
          rw [join_cons (List.cons_ne_nil _ _), List.append_assoc, namesIn_stopped name stop,
            namesIn_identifier isName, namesIn_skip (isLetter_of_isBlank isBlank_space), later,
            List.singleton_append]

/-- The names of the first ranks, written one after the other. -/
def canonicalText (n : Nat) : Text := join (lit " ") ((List.range n).map rankName)

theorem namesIn_canonicalText (n : Nat) :
    namesIn (canonicalText n) = (List.range n).map rankName := by
  apply namesIn_join
  intro name mem
  obtain ⟨rank, -, rfl⟩ := List.mem_map.mp mem
  exact isIdentifier_rankName rank

theorem isCanonical_canonicalText (n : Nat) : IsCanonical n (canonicalText n) := by
  constructor
  · intro name mem _
    rw [namesIn_canonicalText] at mem
    obtain ⟨rank, inside, rfl⟩ := List.mem_map.mp mem
    exact ⟨rank, List.mem_range.mp inside, rfl⟩
  · intro rank inside
    rw [namesIn_canonicalText]
    exact List.mem_map_of_mem (List.mem_range.mpr inside)

/-- Renaming a text again changes it exactly when it has more than ten variables, and the variables
    are x0, x1, … both times. So a text whose variables are these already is left as it is exactly
    when there are at most ten of them. -/
theorem normalize_again_iff (text : Text) :
    (normalize (normalize text).1 = normalize text ↔ (normalize text).2.length ≤ 10) ∧
      (normalize (normalize text).1).2 = (normalize text).2 ∧
      ∀ n, IsCanonical n text →
        (normalize text = (text, (List.range n).map rankName) ↔ n ≤ 10) := by
  have canonical := isCanonical_normalize text
  have vars : (normalize (normalize text).1).2 = (normalize text).2 := by
    have size : (normalize text).2.length = (canonicalOrder (namesIn text)).length := by
      rw [normalize, vars_ofNames, List.length_map, List.length_range]
    rw [canonical.vars_eq, size, normalize, vars_ofNames]
  refine ⟨?_, vars, fun n already => ?_⟩
  · rw [← canonical.normalize_eq_self_iff, Prod.ext_iff]
    exact and_iff_left vars
  · rw [← already.normalize_eq_self_iff, Prod.ext_iff]
    exact and_iff_left already.vars_eq

/-- The names of the first eleven ranks. -/
def elevenNames : Text := lit "x0 x1 x2 x3 x4 x5 x6 x7 x8 x9 x10"

theorem isCanonical_elevenNames : IsCanonical 11 elevenNames := by
  have text : elevenNames = canonicalText 11 := by decide +kernel
  rw [text]
  exact isCanonical_canonicalText 11

/-- The first eleven names are renamed although they are canonical, and renamed once more when
    that is repeated: `x10` is the third name in order. -/
theorem elevenNames_renamed_again :
    normalize elevenNames ≠ (elevenNames, (List.range 11).map rankName) ∧
      normalize (normalize elevenNames).1 ≠ normalize elevenNames := by
  have eleven : (normalize elevenNames).2.length = 11 := by
    rw [isCanonical_elevenNames.vars_eq, List.length_map, List.length_range]
  have again := isCanonical_normalize elevenNames
  rw [eleven] at again
  constructor
  · intro same
    have small := isCanonical_elevenNames.normalize_eq_self_iff.mp (congrArg Prod.fst same)
    omega
  · intro same
    have small := again.normalize_eq_self_iff.mp (congrArg Prod.fst same)
    omega

end Renaming

end MagmaTrace
