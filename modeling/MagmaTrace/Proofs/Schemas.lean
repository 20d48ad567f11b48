import Mathlib.Data.List.Nodup
import MagmaTrace.Settings

/-! # What validators do

The validator that the program runs with does what a validator is documented to do
(`Validator.builtIn_isDocumented`). Under any validator that does, settings are loaded exactly if
the value in force of each one is taken by its type (`Settings.loadWith_ok_iff`), and what is
refused is refused with the complaints about each of them, in their order, of which there is one
at least (`Settings.loadWith_error`).
-/

namespace MagmaTrace

open Text

/-! ## The validator that the program runs with -/

namespace Checked

variable {α : Type} {a x : α} {messages : List Text}

theorem unless_ok_iff : Checked.unless a messages = .ok x ↔ messages = [] ∧ a = x := by
  cases messages <;> simp [Checked.unless]

theorem unless_ne_error_nil : Checked.unless a messages ≠ .error [] := by
  cases messages <;> simp [Checked.unless]

end Checked

theorem complaints_eq_nil_iff {α : Type} {c : Checked α} (speaks : c ≠ .error []) :
    complaints c = [] ↔ ∃ a, c = .ok a := by
  rcases c with messages | a
  · simpa [complaints] using speaks
  · simp [complaints]

namespace ValueType

variable {t : ValueType} {given : Option SettingValue} {x : SettingValue}

/-- There are no complaints exactly if all conditions are met. -/
theorem filter_complaints_eq_nil_iff {α : Type} {checks : List α} {passes : α → Bool}
    {complaint : α → Text} :
    (checks.filter (!passes ·)).map complaint = [] ↔ ∀ c ∈ checks, passes c = true := by
  simp

theorem check_ok_iff : t.check given = .ok x ↔ t.Takes (given.getD t.standard) x := by
  unfold check
  generalize given.getD t.standard = value
  constructor
  · intro accepted
    split at accepted
    · obtain ⟨passes, rfl⟩ := Checked.unless_ok_iff.mp accepted
      exact .text (filter_complaints_eq_nil_iff.mp passes)
    · cases accepted
    · split at accepted
      · cases accepted
      · next converted =>
          obtain ⟨passes, rfl⟩ := Checked.unless_ok_iff.mp accepted
          exact .number converted (filter_complaints_eq_nil_iff.mp passes)
    · split at accepted
      · next listed =>
          cases accepted
          exact .oneOf listed
      · cases accepted
    · cases accepted
  · rintro (passes | ⟨converted, passes⟩ | listed)
    · exact Checked.unless_ok_iff.mpr ⟨filter_complaints_eq_nil_iff.mpr passes, rfl⟩
    · simp only [converted]
      exact Checked.unless_ok_iff.mpr ⟨filter_complaints_eq_nil_iff.mpr passes, rfl⟩
    · exact if_pos listed

theorem check_ne_error_nil : t.check given ≠ .error [] := by
  unfold check
  split
  · exact Checked.unless_ne_error_nil
  · simp
  · split
    · simp
    · exact Checked.unless_ne_error_nil
  · split <;> simp
  · simp

end ValueType

namespace Schema

/-- The type of a setting is found by its name. -/
theorem find?_eq (s : Schema) {field : Setting × ValueType} (declared : field ∈ s.fields) :
    s.fields.find? (·.1 = field.1) = some field := by
  cases found : s.fields.find? (·.1 = field.1) with
  | none => exact absurd (List.find?_eq_none.mp found field declared) (by simp)
  | some other =>
    have same : other.1 = field.1 := by simpa using List.find?_some found
    rw [List.inj_on_of_nodup_map s.nodup (List.mem_of_find?_eq_some found) declared same]

end Schema

namespace Validator

theorem issues_eq_nil_iff {α : Type} {k : Setting} {c : Checked α} (speaks : c ≠ .error []) :
    issues k c = [] ↔ ∃ a, c = .ok a := by
  rw [issues, List.map_eq_nil_iff, complaints_eq_nil_iff speaks]

theorem builtIn_isDocumented : builtIn.IsDocumented where
  value_ok_iff _ _ _ := ValueType.check_ok_iff
  value_speaks _ _ := ValueType.check_ne_error_nil
  object_speaks s given := by
    unfold builtIn
    dsimp only
    split
    · simp
    · next refused => simpa using refused
  independent := by
    intro s given data accepted field declared
    unfold builtIn at accepted
    dsimp only at accepted
    split at accepted
    · next silent =>
        cases accepted
        obtain ⟨x, checked⟩ := (issues_eq_nil_iff ValueType.check_ne_error_nil).mp
          (List.flatMap_eq_nil_iff.mp silent field declared)
        refine ⟨x, checked, ?_⟩
        dsimp only
        rw [s.find?_eq declared, Option.bind_some, checked, Except.toOption]
    · cases accepted
  in_order := by
    intro s given found refused
    unfold builtIn at refused
    dsimp only at refused
    split at refused
    · cases refused
    · cases refused
      rfl

end Validator

/-! ## Loading with a validator -/

namespace Setting

theorem mem_all (k : Setting) : k ∈ all := by
  cases k <;> decide

end Setting

namespace Settings

theorem mem_schema (k : Setting) : (k, k.valueType) ∈ schema.fields :=
  List.mem_map_of_mem k.mem_all

variable {v : Validator} {environment environment' : Setting → Option Text}
  {given given' : Setting → Option SettingValue}

/-- What a validator makes of the value in force of a setting. -/
def checkedWith (v : Validator) (environment : Setting → Option Text)
    (given : Setting → Option SettingValue) (k : Setting) : Checked SettingValue :=
  v.value k.valueType (effective environment given k)

/-- What is refused is refused with all complaints, in the order of the settings. -/
theorem loadWith_error (documented : v.IsDocumented) {found : List SettingIssue}
    (refused : loadWith v environment given = .error found) :
    found ≠ [] ∧
      found = Setting.all.flatMap fun k => issues k (checkedWith v environment given k) := by
  unfold loadWith at refused
  rcases checked : v.object schema (effective environment given) with found' | data
  · rw [checked] at refused
    cases refused
    constructor
    · rintro rfl
      exact documented.object_speaks _ _ checked
    · rw [documented.in_order checked, schema, List.flatMap_map]
      rfl
  · rw [checked] at refused
    cases refused

/-- Settings are loaded exactly if the checks of all values in force accept them, and then with
    what the checks make of them. -/
theorem loadWith_ok_iff (documented : v.IsDocumented) {s : Settings} :
    loadWith v environment given = .ok s ↔
      ∃ data : Setting → SettingValue,
        (∀ k, checkedWith v environment given k = .ok (data k)) ∧ s = ofData fun k => data k := by
  rcases checked : v.object schema (effective environment given) with found | data
  · have refused : loadWith v environment given = .error found := by rw [loadWith, checked]; rfl
    rw [refused]
    refine ⟨nofun, ?_⟩
    rintro ⟨data, accepted, -⟩
    obtain ⟨complains, listed⟩ := loadWith_error documented refused
    refine absurd (listed.trans (List.flatMap_eq_nil_iff.mpr fun k _ => ?_)) complains
    rw [accepted k]
    rfl
  · have loaded : loadWith v environment given = .ok (ofData data) := by rw [loadWith, checked]; rfl
    have each (k : Setting) := documented.independent checked _ (mem_schema k)
    choose value accepted known using each
    have same : data = fun k => some (value k) := funext known
    rw [loaded, same]
    constructor
    · rintro ⟨⟩
      exact ⟨value, accepted, rfl⟩
    · rintro ⟨value', accepted', rfl⟩
      have values : value = value' := funext fun k =>
        Except.ok.inj ((accepted k).symm.trans (accepted' k))
      rw [values]

end Settings

end MagmaTrace
