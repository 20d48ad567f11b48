import MagmaTrace.Diagnostic.Basic
import MagmaTrace.Diagnostic.Hint

/-! # The five kinds of diagnostic

Each kind of failure has one form; only the variable parts are given here.
-/

namespace MagmaTrace

/-- What a diagnostic adds to its message, for programs that read it. -/
inductive Details where
  | token (name : Text)
  | role (word : Text)
  | path (path : Text)
  | issues (found : List (Text × Text))
  deriving DecidableEq

namespace Diagnostic

/-- A malformed text, with the offset where reading stopped if there is one. -/
def parseError {δ : Type} (message input : Text) (offset : Option Nat) : Diagnostic δ :=
  { code := .parse
    message := message
    span := offset.map (Span.point input)
    suggestion := Hint.find? input
    context := some input
    details := none }

/-- A cited name that nothing declares. -/
def missingDependency (token : Text) (context : Option Text) : Diagnostic Details :=
  { code := .missingDependency
    message := lit "Dependency '" ++ token ++
      lit "' does not resolve to a lemma, axiom or the hypothesis"
    span := none
    suggestion := some (lit "Check that the transcript declares every axiom and lemma it cites")
    context := context
    details := some (.token token) }

/-- A transcript without its hypothesis or its conjecture. -/
def missingRecord (role : Text) : Diagnostic Details :=
  { code := .missingRecord
    message := lit "Missing " ++ role ++ lit " in TPTP input"
    span := none
    suggestion := some (lit "Add a 'fof(<name>, " ++ role ++ lit ", <formula>).' declaration")
    context := none
    details := some (.role role) }

/-- A setting with a value that is not allowed. -/
def configError {δ : Type} (message : Text) (details : Option δ) : Diagnostic δ :=
  { code := .config
    message := lit "Invalid configuration: " ++ message
    span := none
    suggestion := none
    context := none
    details := details }

/-- A file or directory that cannot be used. -/
def ioError (message path : Text) : Diagnostic Details :=
  { code := .io
    message := message
    span := none
    suggestion := none
    context := some path
    details := some (.path path) }

end Diagnostic

end MagmaTrace
