import MagmaTrace.Assignment
import MagmaTrace.Registry
import MagmaTrace.Settings

/-! # Environments

An environment gives texts to names. A file of assignments adds the names that an environment
does not have.
-/

namespace MagmaTrace

open Text

/-- The variables that are set, by name. -/
abbrev Environment := Registry Text Text

namespace Environment

/-- The variables that a file sets. The last assignment to a name counts, and a value ends
    before its first zero unit. -/
def ofFile (file : Text) : Environment :=
  Registry.ofList ((Assignment.all file).map fun a => (a.name, a.value.takeWhile (· != 0)))

/-- An environment with the variables of another that it does not have itself. -/
def withDefaults (own defaults : Environment) : Environment :=
  own.insertAll (defaults.entries.filter fun e => !own.contains e.1)

/-- What an environment says about a setting. -/
def setting (e : Environment) (s : Setting) : Option Text := e.get? s.environmentName

end Environment

end MagmaTrace
