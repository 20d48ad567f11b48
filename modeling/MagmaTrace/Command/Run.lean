import MagmaTrace.Command.Arguments
import MagmaTrace.Command.Basic
import MagmaTrace.Command.Usage
import MagmaTrace.Environment

/-! # A run of the program

A run reads its arguments, then its settings, then carries out its command. A command that
fails before its result is complete writes nothing. What checks the settings and what reads the
file of variables are libraries, which a run takes as parameters.
-/

namespace MagmaTrace

open Text

/-- What a command line asks for. -/
inductive Request where
  | help
  | version
  /-- There are no words: the help is shown, but the run fails. -/
  | nothing
  /-- A command without what it should work on. -/
  | noFile
  | command (command : Command)
  deriving DecidableEq

namespace Request

/-- The command that the words and options of a command line make. -/
def ofWords (a : Arguments) : Request :=
  match a.words with
  | [] => nothing
  | word :: rest =>
    if word = lit "generate" then
      operand rest fun file => .generate file (a.value? .equations) (a.value? .outDir)
    else if word = lit "summarize" then operand rest .summarize
    else operand (word :: rest) fun file => .translate file (a.has .stdout)
where
  /-- A command on the first of some words. -/
  operand (words : List Text) (make : Text → Command) : Request :=
    match words with
    | [] => noFile
    | file :: _ => if file = [] then noFile else .command (make file)

def ofArguments (a : Arguments) : Request :=
  if a.has .help then help
  else if a.has .version then version
  else ofWords a

end Request

/-- The settings that a command line gives. The output directory of problems is no setting. -/
def Arguments.given (a : Arguments) (command : Command) (setting : Setting) :
    Option SettingValue :=
  match setting, command with
  | .outputDir, .translate _ _ => (a.value? .outDir).map .text
  | .verbosity, _ => a.verbosity?.map fun v => .text v.word
  | _, _ => none

/-- The libraries that a run is built on. They are no part of the program. -/
structure Libraries where
  /-- What checks the settings. -/
  validator : Validator
  /-- The variables in force at a workplace: what a file in it adds to those of the environment. -/
  environment : Workplace → Environment → Environment

namespace Libraries

/-- The libraries that the program runs with. Variables are added from the file `.env`. -/
def builtIn : Libraries where
  validator := .builtIn
  environment w environment :=
    match w.tree.find w.current (lit ".env") with
    | .ok (.file content) => environment.withDefaults (.ofFile content)
    | _ => environment

end Libraries

/-- What a run leaves: its exit status, its two outputs and the tree of files. -/
structure Outcome where
  status : UInt32
  output : Text
  errors : Text
  tree : FileTree
  deriving DecidableEq

namespace Outcome

/-- A run that only says something. -/
def saying (w : Workplace) (status : UInt32) (output errors : Text) : Outcome :=
  ⟨status, output, errors, w.tree⟩

/-- A run that fails after it has said something. -/
def failure (w : Workplace) (said : Text) (e : CommandError) : Outcome :=
  saying w 1 [] (said ++ Command.linesOut [e.message])

/-- A run whose result is complete: it is delivered, then reported. -/
def success (w : Workplace) (said : Text) (p : Product) : Outcome :=
  match p.delivery.map (·.perform w) with
  | none => ⟨0, p.output, said ++ p.remarks, w.tree⟩
  | some (tree, none) => ⟨0, p.output, said ++ p.remarks, tree⟩
  | some (tree, some e) => failure { w with tree := tree } said (.file e)

/-- Carry out a command under settings that may be wrong. -/
def ofCommand (w : Workplace) (command : Command) :
    Except (List SettingIssue) Settings → Outcome
  | .error found => failure w [] (.settings found)
  | .ok s =>
    match command.product w s with
    | (said, .error e) => failure w said e
    | (said, .ok p) => success w said p

/-- The outcome of a run on some libraries. -/
def ofRunWith (l : Libraries) (w : Workplace) (environment : Environment)
    (arguments : List Text) : Outcome :=
  let a := Arguments.ofList arguments
  match Request.ofArguments a with
  | .help => saying w 0 (Command.linesOut [Usage.help]) []
  | .version => saying w 0 (Command.linesOut [Usage.version]) []
  | .nothing => saying w 1 (Command.linesOut [Usage.help]) []
  | .noFile => saying w 1 [] (Command.linesOut [lit "Error: file argument required"])
  | .command command =>
    ofCommand w command
      (Settings.loadWith l.validator (l.environment w environment).setting (a.given command))

/-- The outcome of a run of the program. -/
def ofRun (w : Workplace) (environment : Environment) (arguments : List Text) : Outcome :=
  ofRunWith .builtIn w environment arguments

end Outcome

end MagmaTrace
