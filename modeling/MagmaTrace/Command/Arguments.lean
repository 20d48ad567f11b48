import MagmaTrace.Settings

/-! # Arguments

The arguments of a command line are options with a value, flags, and words. Options and flags
may stand anywhere; the words name the command and what it works on.
-/

namespace MagmaTrace

open Text

/-- The options that take a value. -/
inductive ValueOption where
  | outDir
  | equations
  deriving DecidableEq

namespace ValueOption

def word : ValueOption → Text
  | outDir => lit "--out-dir"
  | equations => lit "--equations"

/-- The option that an argument is, with the value after `=` if it holds one. A value on
    several lines makes it no option. -/
def ofArgument? (argument : Text) : Option (ValueOption × Option Text) :=
  [outDir, equations].findSome? fun option =>
    match strip? option.word argument with
    | some [] => some (option, none)
    | some rest =>
      match strip? (lit "=") rest with
      | some value => if value.any isLineEnd then none else some (option, some value)
      | none => none
    | none => none

end ValueOption

/-- The flags, which take no value. -/
inductive Flag where
  | help
  | version
  | stdout
  | quiet
  | verbose
  deriving DecidableEq

/-- The ways to write a flag. -/
def Flag.words : Flag → List Text
  | .help => [lit "--help", lit "-h"]
  | .version => [lit "--version", lit "-v"]
  | .stdout => [lit "--stdout"]
  | .quiet => [lit "--quiet"]
  | .verbose => [lit "--verbose"]

/-- A command line taken apart: the values of its options and its words. -/
structure Arguments where
  all : List Text
  options : List (ValueOption × Text)
  words : List Text
  deriving DecidableEq

namespace Arguments

/-- The values of options and the words among some arguments. An option without `=` takes the
    argument after it, whatever that is; any other argument that begins with a hyphen is
    neither. -/
def split : List Text → List (ValueOption × Text) × List Text
  | [] => ([], [])
  | argument :: rest =>
    match ValueOption.ofArgument? argument with
    | some (option, some value) =>
      let (options, words) := split rest
      ((option, value) :: options, words)
    | some (option, none) =>
      match rest with
      | [] => ([], [])
      | value :: rest =>
        let (options, words) := split rest
        ((option, value) :: options, words)
    | none =>
      let (options, words) := split rest
      (options, if startsWith (lit "-") argument then words else argument :: words)

def ofList (arguments : List Text) : Arguments :=
  let (options, words) := split arguments
  ⟨arguments, options, words⟩

/-- The value of an option; the last counts. -/
def value? (a : Arguments) (option : ValueOption) : Option Text :=
  (a.options.reverse.find? (·.1 = option)).map (·.2)

/-- Whether a flag is among the arguments, be it as the value of an option. -/
def has (a : Arguments) (flag : Flag) : Bool := flag.words.any a.all.contains

/-- How much the flags ask to be said. -/
def verbosity? (a : Arguments) : Option Verbosity :=
  if a.has .quiet then some .minimal
  else if a.has .verbose then some .detailed
  else none

end Arguments

end MagmaTrace
