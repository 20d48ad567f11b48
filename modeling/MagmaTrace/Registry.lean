/-! # Registries

A registry maps keys to values and remembers in which order the keys came. Setting a key
again changes its value and keeps its place.
-/

namespace MagmaTrace

/-- A finite map whose keys keep the order in which they were first set. -/
structure Registry (κ α : Type) where
  entries : List (κ × α)
  keys_nodup : (entries.map (·.1)).Nodup
  deriving DecidableEq

namespace Registry

variable {κ α β : Type}

/-- The keys in order of first setting. -/
def keys (r : Registry κ α) : List κ := r.entries.map (·.1)

/-- The values in the order of their keys. -/
def values (r : Registry κ α) : List α := r.entries.map (·.2)

def size (r : Registry κ α) : Nat := r.entries.length

def empty : Registry κ α := ⟨[], by simp⟩

instance : EmptyCollection (Registry κ α) := ⟨empty⟩
instance : Inhabited (Registry κ α) := ⟨empty⟩

variable [DecidableEq κ]

/-- The value of a key. -/
def get? (r : Registry κ α) (key : κ) : Option α :=
  (r.entries.find? (·.1 = key)).map (·.2)

def contains (r : Registry κ α) (key : κ) : Bool := (r.get? key).isSome

/-- Entries after setting a key: in its old place, or last when it is new. -/
def setEntry (key : κ) (value : α) : List (κ × α) → List (κ × α)
  | [] => [(key, value)]
  | (k, v) :: rest => if k = key then (k, value) :: rest else (k, v) :: setEntry key value rest

theorem mem_keys_setEntry {key k : κ} {value : α} {entries : List (κ × α)} :
    k ∈ (setEntry key value entries).map (·.1) ↔ k ∈ entries.map (·.1) ∨ k = key := by
  induction entries with
  | nil => simp [setEntry]
  | cons e rest ih =>
    unfold setEntry
    split
    · next h => simp only [List.map_cons, List.mem_cons]; grind
    · simp only [List.map_cons, List.mem_cons, ih, or_assoc]

theorem nodup_keys_setEntry (key : κ) (value : α) {entries : List (κ × α)}
    (h : (entries.map (·.1)).Nodup) : ((setEntry key value entries).map (·.1)).Nodup := by
  induction entries with
  | nil => simp [setEntry]
  | cons e rest ih =>
    rw [List.map_cons, List.nodup_cons] at h
    unfold setEntry
    split
    · simpa using h
    · next hne =>
      rw [List.map_cons, List.nodup_cons, mem_keys_setEntry]
      exact ⟨fun hm => hm.elim h.1 hne, ih h.2⟩

/-- Set the value of a key. -/
def insert (r : Registry κ α) (key : κ) (value : α) : Registry κ α :=
  ⟨setEntry key value r.entries, nodup_keys_setEntry key value r.keys_nodup⟩

/-- The value of a key among entries after setting one. -/
theorem find?_setEntry (key k : κ) (value : α) (entries : List (κ × α)) :
    ((setEntry key value entries).find? (·.1 = k)).map (·.2) =
      if k = key then some value else (entries.find? (·.1 = k)).map (·.2) := by
  induction entries with
  | nil => grind [setEntry]
  | cons e rest ih => grind [setEntry]

/-- A key that is set has its value; every other key keeps its own. -/
theorem get?_insert (r : Registry κ α) (key k : κ) (value : α) :
    (r.insert key value).get? k = if k = key then some value else r.get? k :=
  find?_setEntry key k value r.entries

/-- A key that is set keeps its place among the keys, or comes last when it is new. -/
theorem keys_setEntry (key : κ) (value : α) (entries : List (κ × α)) :
    (setEntry key value entries).map (·.1) =
      if key ∈ entries.map (·.1) then entries.map (·.1) else entries.map (·.1) ++ [key] := by
  induction entries with
  | nil => simp [setEntry]
  | cons e rest ih => grind [setEntry]

theorem keys_insert (r : Registry κ α) (key : κ) (value : α) :
    (r.insert key value).keys = if key ∈ r.keys then r.keys else r.keys ++ [key] :=
  keys_setEntry key value r.entries

/-- Set one key after another. -/
def insertAll (r : Registry κ α) (entries : List (κ × α)) : Registry κ α :=
  entries.foldl (fun r e => r.insert e.1 e.2) r

/-- The registry that setting the given keys in order leaves. -/
def ofList (entries : List (κ × α)) : Registry κ α := empty.insertAll entries

end Registry

end MagmaTrace
