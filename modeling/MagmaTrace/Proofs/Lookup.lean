import Mathlib.Data.List.Nodup
import MagmaTrace.Registry

/-! # Looking things up in a registry

A registry's entries, keys and values are three views of what its lookup finds. A property of
entries is kept by setting a key to a value that has it.
-/

namespace MagmaTrace.Registry

variable {κ α : Type} [DecidableEq κ]

theorem get?_eq_some_iff {r : Registry κ α} {key : κ} {value : α} :
    r.get? key = some value ↔ (key, value) ∈ r.entries := by
  unfold get?
  constructor
  · intro found
    obtain ⟨⟨k, v⟩, entry, rfl⟩ := Option.map_eq_some_iff.mp found
    have same : k = key := by simpa using List.find?_some entry
    rw [← same]
    exact List.mem_of_find?_eq_some entry
  · intro mem
    obtain ⟨before, after, split⟩ := List.append_of_mem mem
    have clear : ∀ e ∈ before, e.1 ≠ key := by
      intro e he same
      have distinct := r.keys_nodup
      rw [split, List.map_append, List.nodup_append] at distinct
      exact distinct.2.2 e.1 (List.mem_map_of_mem he) key (by simp) same
    have skipped : before.find? (·.1 = key) = none := by simpa using clear
    rw [split, List.find?_append, skipped]
    simp

theorem mem_keys_iff {r : Registry κ α} {key : κ} :
    key ∈ r.keys ↔ ∃ value, r.get? key = some value := by
  unfold keys
  simp only [List.mem_map, Prod.exists, exists_and_right, exists_eq_right, get?_eq_some_iff]

/-- The order of entries does not matter to what is found. -/
theorem get?_of_perm {r r' : Registry κ α} (h : r'.entries.Perm r.entries) (key : κ) :
    r'.get? key = r.get? key := by
  ext value
  rw [get?_eq_some_iff, get?_eq_some_iff, h.mem_iff]

theorem contains_iff {r : Registry κ α} {key : κ} : r.contains key = true ↔ key ∈ r.keys := by
  rw [mem_keys_iff, contains, Option.isSome_iff_exists]

theorem mem_values_iff {r : Registry κ α} {value : α} :
    value ∈ r.values ↔ ∃ key, r.get? key = some value := by
  unfold values
  simp only [List.mem_map, Prod.exists, exists_eq_right, get?_eq_some_iff]

theorem get?_insert_self (r : Registry κ α) (key : κ) (value : α) :
    (r.insert key value).get? key = some value := by
  rw [get?_insert, if_pos rfl]

theorem get?_insert_of_ne (r : Registry κ α) {key k : κ} (value : α) (other : k ≠ key) :
    (r.insert key value).get? k = r.get? k := by
  rw [get?_insert, if_neg other]

/-- Of two values set for a key the second stays. -/
theorem insert_insert_self (r : Registry κ α) (key : κ) (first second : α) :
    (r.insert key first).insert key second = r.insert key second := by
  have same (entries : List (κ × α)) : setEntry key second (setEntry key first entries) =
      setEntry key second entries := by
    induction entries with
    | nil => simp [setEntry]
    | cons e rest ih =>
        by_cases here : e.1 = key
        · simp [setEntry, here]
        · simp [setEntry, here, ih]
  simp only [insert, same]

/-- A value set again changes nothing. -/
theorem insert_eq_self {r : Registry κ α} {key : κ} {value : α} (found : r.get? key = some value) :
    r.insert key value = r := by
  have same (entries : List (κ × α)) (found : (entries.find? (·.1 = key)).map (·.2) = some value) :
      setEntry key value entries = entries := by
    induction entries with
    | nil => cases found
    | cons e rest ih =>
        obtain ⟨k, v⟩ := e
        by_cases here : k = key
        · have kept : v = value := by simpa [here] using found
          simp [setEntry, here, kept]
        · have later : (rest.find? (·.1 = key)).map (·.2) = some value := by simpa [here] using found
          simp [setEntry, here, ih later]
  simp only [insert, same r.entries found]

/-- A new key comes last. -/
theorem setEntry_of_not_mem {key : κ} {value : α} {entries : List (κ × α)}
    (new : key ∉ entries.map (·.1)) : setEntry key value entries = entries ++ [(key, value)] := by
  induction entries with
  | nil => rfl
  | cons e rest ih =>
      rw [List.map_cons, List.mem_cons, not_or] at new
      obtain ⟨other, later⟩ := new
      rw [setEntry, if_neg (Ne.symm other), ih later, List.cons_append]

/-- The first of some new keys comes last when it is set. -/
theorem insert_of_distinct (r : Registry κ α) {key : κ} {rest : List κ}
    (distinct : (r.keys ++ key :: rest).Nodup) (value : α) :
    (r.insert key value).keys = r.keys ++ [key] ∧
      (r.insert key value).entries = r.entries ++ [(key, value)] := by
  have new : key ∉ r.keys := fun mem =>
    (List.nodup_append.mp distinct).2.2 key mem key List.mem_cons_self rfl
  exact ⟨by rw [keys_insert, if_neg new], setEntry_of_not_mem new⟩

theorem entries_insertAll {r : Registry κ α} {entries : List (κ × α)}
    (distinct : (r.entries.map (·.1) ++ entries.map (·.1)).Nodup) :
    (r.insertAll entries).entries = r.entries ++ entries := by
  unfold insertAll
  induction entries generalizing r with
  | nil => simp
  | cons e rest ih =>
      have set := (r.insert_of_distinct distinct e.2).2
      rw [List.foldl_cons, ih (by rw [set]; simpa using distinct), set, List.append_assoc]
      rfl

/-- Entries with distinct keys are kept as they are. -/
theorem entries_ofList {entries : List (κ × α)} (distinct : (entries.map (·.1)).Nodup) :
    (ofList entries).entries = entries :=
  entries_insertAll (r := empty) distinct

/-- The last of some entries is set last. -/
theorem ofList_append_singleton (entries : List (κ × α)) (e : κ × α) :
    ofList (entries ++ [e]) = (ofList entries).insert e.1 e.2 := by
  simp only [ofList, insertAll, List.foldl_append, List.foldl_cons, List.foldl_nil]

omit [DecidableEq κ] in
theorem map_fst_ranked (keys : List κ) (value : Nat → α) :
    (keys.mapIdx fun rank key => (key, value rank)).map (·.1) = keys := by
  apply List.ext_getElem
  · simp
  · simp

section

variable {keys : List κ} (distinct : keys.Nodup) (value : Nat → α)
include distinct

/-- A registry of distinct keys, each with a value for its rank, has these entries. -/
theorem entries_ranked : (ofList (keys.mapIdx fun rank key => (key, value rank))).entries =
    keys.mapIdx fun rank key => (key, value rank) := by
  apply entries_ofList
  rw [map_fst_ranked]
  exact distinct

theorem keys_ranked : (ofList (keys.mapIdx fun rank key => (key, value rank))).keys = keys := by
  rw [Registry.keys, entries_ranked distinct, map_fst_ranked]

theorem values_ranked : (ofList (keys.mapIdx fun rank key => (key, value rank))).values =
    (List.range keys.length).map value := by
  unfold values
  rw [entries_ranked distinct]
  apply List.ext_getElem
  · simp
  · simp

theorem get?_ranked [BEq κ] [LawfulBEq κ] {key : κ} (mem : key ∈ keys) :
    (ofList (keys.mapIdx fun rank key => (key, value rank))).get? key =
      some (value (keys.idxOf key)) := by
  rw [get?_eq_some_iff, entries_ranked distinct, List.mem_mapIdx]
  exact ⟨_, List.idxOf_lt_length_of_mem mem, by rw [List.getElem_idxOf]⟩

end

/-- Every entry has a property. -/
def Holds (p : κ → α → Prop) (r : Registry κ α) : Prop :=
  ∀ key value, r.get? key = some value → p key value

theorem holds_empty (p : κ → α → Prop) : Holds p ∅ := by
  intro key value found
  cases found

theorem Holds.insert {p : κ → α → Prop} {r : Registry κ α} (h : r.Holds p) {key : κ} {value : α}
    (new : p key value) : (r.insert key value).Holds p := by
  intro k v found
  rw [get?_insert] at found
  split at found
  · next same =>
      cases found
      rw [same]
      exact new
  · exact h k v found

theorem Holds.insertAll {p : κ → α → Prop} {r : Registry κ α} (h : r.Holds p)
    {entries : List (κ × α)} (new : ∀ e ∈ entries, p e.1 e.2) : (r.insertAll entries).Holds p := by
  unfold Registry.insertAll
  induction entries generalizing r with
  | nil => exact h
  | cons e rest ih =>
      exact ih (h.insert (new e List.mem_cons_self)) fun e mem => new e (List.mem_cons_of_mem _ mem)

theorem Holds.imp {p q : κ → α → Prop} {r : Registry κ α} (h : r.Holds p)
    (weaker : ∀ key value, p key value → q key value) : r.Holds q :=
  fun key value found => weaker key value (h key value found)

/-- Values that tell the keys they are filed under tell them in order. -/
theorem Holds.map_values {r : Registry κ α} {f : α → κ}
    (h : r.Holds fun key value => f value = key) : r.values.map f = r.keys := by
  unfold values keys
  rw [List.map_map]
  exact List.map_congr_left fun e mem => h e.1 e.2 (get?_eq_some_iff.mpr mem)

/-- A registry whose values are found from their keys has these entries. -/
theorem entries_eq_map_keys {r : Registry κ α} {f : κ → α}
    (h : ∀ key ∈ r.keys, r.get? key = some (f key)) :
    r.entries = r.keys.map fun key => (key, f key) := by
  unfold keys
  rw [List.map_map]
  conv_lhs => rw [← List.map_id r.entries]
  refine List.map_congr_left fun e mem => Prod.ext rfl ?_
  have found : r.get? e.1 = some e.2 := get?_eq_some_iff.mpr mem
  have filed := h e.1 (mem_keys_iff.mpr ⟨_, found⟩)
  exact Option.some.inj (found.symm.trans filed)

/-! ## Changed values -/

section

variable {β : Type}

/-- A registry of the same keys in which every value is changed. -/
def mapValues (f : α → β) (r : Registry κ α) : Registry κ β where
  entries := r.entries.map fun e => (e.1, f e.2)
  keys_nodup := by
    rw [List.map_map]
    exact r.keys_nodup

omit [DecidableEq κ] in
@[simp] theorem keys_mapValues (f : α → β) (r : Registry κ α) : (r.mapValues f).keys = r.keys := by
  unfold keys mapValues
  rw [List.map_map]
  rfl

omit [DecidableEq κ] in
@[simp] theorem values_mapValues (f : α → β) (r : Registry κ α) :
    (r.mapValues f).values = r.values.map f := by
  unfold values mapValues
  rw [List.map_map, List.map_map]
  rfl

omit [DecidableEq κ] in
@[simp] theorem size_mapValues (f : α → β) (r : Registry κ α) : (r.mapValues f).size = r.size :=
  List.length_map _

@[simp] theorem get?_mapValues (f : α → β) (r : Registry κ α) (key : κ) :
    (r.mapValues f).get? key = (r.get? key).map f := by
  unfold get? mapValues
  rw [List.find?_map, Option.map_map, Option.map_map]
  rfl

@[simp] theorem contains_mapValues (f : α → β) (r : Registry κ α) (key : κ) :
    (r.mapValues f).contains key = r.contains key := by
  unfold contains
  rw [get?_mapValues, Option.isSome_map]

theorem insert_mapValues (f : α → β) (r : Registry κ α) (key : κ) (value : α) :
    (r.insert key value).mapValues f = (r.mapValues f).insert key (f value) := by
  have same (entries : List (κ × α)) : (setEntry key value entries).map (fun e => (e.1, f e.2)) =
      setEntry key (f value) (entries.map fun e => (e.1, f e.2)) := by
    induction entries with
    | nil => rfl
    | cons e rest ih =>
        by_cases here : e.1 = key
        · simp [setEntry, here]
        · simp [setEntry, here, ih]
  simp only [insert, mapValues, same]

end

end MagmaTrace.Registry
