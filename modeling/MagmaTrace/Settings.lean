import MagmaTrace.Diagnostic.Kind
import MagmaTrace.Options
import MagmaTrace.Schema

/-! # Settings

A setting is taken from the command line, else from the environment, else from the defaults; an
empty text counts as nothing. All settings are checked under one schema by a validator.
-/

namespace MagmaTrace

open Text

/-- How much is said while a command runs. -/
inductive Verbosity where
  | minimal
  | standard
  | detailed
  deriving DecidableEq

namespace Verbosity

def all : List Verbosity := [minimal, standard, detailed]

def word : Verbosity → Text
  | minimal => lit "minimal"
  | standard => lit "standard"
  | detailed => lit "detailed"

def ofWord? (text : Text) : Option Verbosity := all.find? (·.word = text)

end Verbosity

/-- Checked settings. -/
structure Settings where
  outputDir : Text
  maxLineLength : Nat
  tactic : Text
  hypothesisName : Text
  verbosity : Verbosity
  deriving DecidableEq

namespace Settings

def standard : Settings :=
  ⟨lit "lean/Proof", 80, lit "duper", lit "op_law", .standard⟩

/-- The options of a translation under some settings. -/
def options (s : Settings) : Options := ⟨.ofNat s.maxLineLength, s.tactic, s.hypothesisName⟩

/-- The value in force: the given one, else the environment's, unless they are empty. -/
def effective (environment : Setting → Option Text) (given : Setting → Option SettingValue)
    (setting : Setting) : Option SettingValue :=
  ((given setting).filter (· ≠ .text [])).or
    (((environment setting).filter (· ≠ [])).map .text)

/-- A letter or low line, then word units and periods. -/
def isTacticName : Text → Bool
  | [] => false
  | u :: rest => isWordStart u && rest.all fun v => isWord v || v == '.'

/-- A letter or low line, then word units. -/
def isIdentifier : Text → Bool
  | [] => false
  | u :: rest => isWordStart u && rest.all isWord

end Settings

/-- What the value of a setting has to be. -/
def Setting.valueType : Setting → ValueType
  | outputDir => .text [.atLeast 1] Settings.standard.outputDir
  | maxLineLength => .number [.integer, .positive] (.ofNat Settings.standard.maxLineLength)
  | tactic =>
    .text [.matching Settings.isTacticName (lit "must be a tactic name")] Settings.standard.tactic
  | hypothesisName =>
    .text [.matching Settings.isIdentifier (lit "must be a Lean identifier")]
      Settings.standard.hypothesisName
  | verbosity => .oneOf (Verbosity.all.map (·.word)) Settings.standard.verbosity.word

namespace Settings

/-- The schema of the settings. -/
def schema : Schema where
  fields := Setting.all.map fun setting => (setting, setting.valueType)
  nodup := by decide

/-- The settings with checked values. What has no value is as in the standard settings. -/
def ofData (data : Setting → Option SettingValue) : Settings where
  outputDir := ((data .outputDir).bind (·.text?)).getD standard.outputDir
  maxLineLength :=
    (((data .maxLineLength).bind (·.amount?)).bind (·.size.toNat?)).getD standard.maxLineLength
  tactic := ((data .tactic).bind (·.text?)).getD standard.tactic
  hypothesisName := ((data .hypothesisName).bind (·.text?)).getD standard.hypothesisName
  verbosity := (((data .verbosity).bind (·.text?)).bind Verbosity.ofWord?).getD standard.verbosity

/-- The settings from the environment and what is given, if a validator accepts them. -/
def loadWith (v : Validator) (environment : Setting → Option Text)
    (given : Setting → Option SettingValue) : Except (List SettingIssue) Settings :=
  (v.object schema (effective environment given)).map ofData

/-- The settings that the program runs with. -/
def load (environment : Setting → Option Text) (given : Setting → Option SettingValue) :
    Except (List SettingIssue) Settings :=
  loadWith .builtIn environment given

/-- The first complaint is the message, all of them are the details. -/
def diagnostic (found : List SettingIssue) : Diagnostic Details :=
  let message := match found with
    | [] => []
    | first :: _ => first.setting.name ++ lit ": " ++ first.message
  Diagnostic.configError message
    (some (.issues (found.map fun i => (i.setting.name, i.message))))

end Settings

end MagmaTrace
