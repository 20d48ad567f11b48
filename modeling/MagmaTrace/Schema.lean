import MagmaTrace.Number.Literal
import MagmaTrace.Text.Cut
import MagmaTrace.Text.Decimal

/-! # Schemas

The things that can be set, and schemas that say what their values have to be. Values are checked
by a validator that is no part of the program, so it is a parameter, and only what it is documented
to do is relied on (`Validator.IsDocumented`): it checks each value by itself, and it lists its
complaints in the order of the schema. The validator that the program runs with is one of them.
-/

namespace MagmaTrace

open Text

/-- The things that can be set. -/
inductive Setting where
  | outputDir
  | maxLineLength
  | tactic
  | hypothesisName
  | verbosity
  deriving DecidableEq

namespace Setting

/-- All settings in the order in which the schema declares them. -/
def all : List Setting := [outputDir, maxLineLength, tactic, hypothesisName, verbosity]

/-- The name of a setting in messages. -/
def name : Setting → Text
  | outputDir => lit "outputDir"
  | maxLineLength => lit "maxLineLength"
  | tactic => lit "tactic"
  | hypothesisName => lit "hypothesisName"
  | verbosity => lit "verbosity"

/-- The name of the environment's variable for a setting. -/
def environmentName : Setting → Text
  | outputDir => lit "TRACE2LEAN_OUTPUT_DIR"
  | maxLineLength => lit "TRACE2LEAN_MAX_LINE_LENGTH"
  | tactic => lit "TRACE2LEAN_TACTIC"
  | hypothesisName => lit "TRACE2LEAN_HYPOTHESIS"
  | verbosity => lit "TRACE2LEAN_VERBOSITY"

end Setting

/-- A value given for a setting. -/
inductive SettingValue where
  | text (content : Text)
  | number (n : Signed)
  deriving DecidableEq

namespace SettingValue

def text? : SettingValue → Option Text
  | text content => some content
  | number _ => none

/-- The number that a value is converted to. -/
def amount? : SettingValue → Option Signed
  | text content => Signed.ofText? content
  | number n => some n

end SettingValue

/-- A complaint about the value of a setting. -/
structure SettingIssue where
  setting : Setting
  message : Text
  deriving DecidableEq

/-! ## What values have to be -/

/-- A condition on a text. -/
inductive TextCheck where
  /-- The text has at least so many units. -/
  | atLeast (length : Nat)
  /-- The text passes a test. There is a complaint for this test. -/
  | matching (test : Text → Bool) (complaint : Text)

def TextCheck.passes : TextCheck → Text → Bool
  | atLeast length, text => length ≤ text.length
  | matching test _, text => test text

/-- A condition on a number. -/
inductive NumberCheck where
  | integer
  | positive
  deriving DecidableEq

def NumberCheck.passes : NumberCheck → Signed → Bool
  | integer, n => n.size.toNat?.isSome
  | positive, n => n.isPositive

/-- What a value has to be, and the value that stands for none. -/
inductive ValueType where
  | text (checks : List TextCheck) (standard : Text)
  /-- A number, or a text that is converted to one. -/
  | number (checks : List NumberCheck) (standard : Signed)
  | oneOf (words : List Text) (standard : Text)

namespace ValueType

def standard : ValueType → SettingValue
  | text _ standard => .text standard
  | number _ standard => .number standard
  | oneOf _ standard => .text standard

/-- A value is taken for another one under a type. -/
inductive Takes : ValueType → SettingValue → SettingValue → Prop where
  | text {checks standard content} : (∀ c ∈ checks, c.passes content = true) →
      Takes (.text checks standard) (.text content) (.text content)
  | number {checks standard value n} : value.amount? = some n →
      (∀ c ∈ checks, c.passes n = true) → Takes (.number checks standard) value (.number n)
  | oneOf {words standard word} : word ∈ words →
      Takes (.oneOf words standard) (.text word) (.text word)

end ValueType

/-- Types for settings. No setting has two. -/
structure Schema where
  fields : List (Setting × ValueType)
  nodup : (fields.map (·.1)).Nodup

/-! ## Validators -/

/-- A checked value, or the complaints about it. -/
abbrev Checked (α : Type) := Except (List Text) α

/-- The complaints of a check. -/
def complaints {α : Type} : Checked α → List Text
  | .ok _ => []
  | .error messages => messages

/-- The complaints about one setting. -/
def issues {α : Type} (setting : Setting) (checked : Checked α) : List SettingIssue :=
  (complaints checked).map (⟨setting, ·⟩)

/-- What checks values. -/
structure Validator where
  /-- The check of a value, or of none, under a type. -/
  value : ValueType → Option SettingValue → Checked SettingValue
  /-- The check of the values of settings under a schema. -/
  object : Schema → (Setting → Option SettingValue) →
    Except (List SettingIssue) (Setting → Option SettingValue)

/-- A validator does what it is documented to do. -/
structure Validator.IsDocumented (v : Validator) : Prop where
  /-- Exactly the values that a type takes are accepted, as what they are taken for. The standard
      value stands for none. -/
  value_ok_iff (t : ValueType) (given : Option SettingValue) (x : SettingValue) :
    v.value t given = .ok x ↔ t.Takes (given.getD t.standard) x
  /-- Whatever is refused is complained about. -/
  value_speaks (t : ValueType) (given : Option SettingValue) : v.value t given ≠ .error []
  object_speaks (s : Schema) (given : Setting → Option SettingValue) : v.object s given ≠ .error []
  /-- Each value is checked by itself. -/
  independent {s : Schema} {given data : Setting → Option SettingValue} :
    v.object s given = .ok data → ∀ field ∈ s.fields,
      ∃ x, v.value field.2 (given field.1) = .ok x ∧ data field.1 = some x
  /-- The complaints about all values are listed in the order of the schema. -/
  in_order {s : Schema} {given : Setting → Option SettingValue} {found : List SettingIssue} :
    v.object s given = .error found →
      found = s.fields.flatMap fun field => issues field.1 (v.value field.2 (given field.1))

/-! ## The validator that the program runs with -/

def TextCheck.complaint : TextCheck → Text
  | atLeast length => lit "String must contain at least " ++ decimal length ++ lit " character(s)"
  | matching _ complaint => complaint

def NumberCheck.complaint : NumberCheck → Text
  | integer => lit "Expected integer, received float"
  | positive => lit "Number must be greater than 0"

/-- A value, unless there are complaints about it. -/
def Checked.unless {α : Type} (a : α) : List Text → Checked α
  | [] => .ok a
  | messages => .error messages

namespace ValueType

/-- Words in quotation marks, as complaints list them. -/
def listed (words : List Text) : Text :=
  join (lit " | ") (words.map fun word => lit "'" ++ word ++ lit "'")

/-- Check a value under a type, with the standard value for none. -/
def check (t : ValueType) (given : Option SettingValue) : Checked SettingValue :=
  match t, given.getD t.standard with
  | text checks _, .text content =>
    .unless (.text content) ((checks.filter (!·.passes content)).map (·.complaint))
  | text _ _, .number _ => .error [lit "Expected string, received number"]
  | number checks _, value =>
    match value.amount? with
    | none => .error [lit "Expected number, received nan"]
    | some n => .unless (.number n) ((checks.filter (!·.passes n)).map (·.complaint))
  | oneOf words _, .text word =>
    if word ∈ words then .ok (.text word)
    else .error
      [lit "Invalid enum value. Expected " ++ listed words ++ lit ", received '" ++ word ++ lit "'"]
  | oneOf words _, .number _ =>
    .error [lit "Expected " ++ listed words ++ lit ", received number"]

end ValueType

namespace Validator

/-- The validator that the program runs with. -/
def builtIn : Validator where
  value := ValueType.check
  object s given :=
    match s.fields.flatMap fun field => issues field.1 (field.2.check (given field.1)) with
    | [] => .ok fun setting =>
      (s.fields.find? (·.1 = setting)).bind fun field => (field.2.check (given setting)).toOption
    | found => .error found

end Validator

end MagmaTrace
