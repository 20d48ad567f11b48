import MagmaTrace.FileTree
import MagmaTrace.Settings
import MagmaTrace.Translation

/-! # Where commands work

A command reads files and directories, and everything that it reads it reads before it writes.
What it writes is a delivery: a directory and the files in it. What keeps it from its result
is a command error.
-/

namespace MagmaTrace

open Text

/-- A tree of files and the directory in it that paths start from. -/
structure Workplace where
  tree : FileTree
  current : Place
  deriving DecidableEq

/-- What a command is told to read. -/
inductive Source where
  | input
  | equations
  | logs
  deriving DecidableEq

/-- The words for what is read. -/
def Source.word : Source → Text
  | input => lit "Input file"
  | equations => lit "Equations directory"
  | logs => lit "Log directory"

/-- Why a command has no result. -/
inductive CommandError where
  | absent (source : Source) (path : Text)
  | settings (found : List SettingIssue)
  | translation (error : TranslationError)
  | equation (error : SyntaxError)
  | file (error : FileError)
  deriving DecidableEq

namespace CommandError

/-- An error of the file system under its own heading, any other as its diagnostic. -/
def message : CommandError → Text
  | absent source path =>
    failed (.ioError (source.word ++ lit " " ++ path ++ lit " does not exist") path)
  | settings found => failed (Settings.diagnostic found)
  | translation error => failed error.diagnostic
  | equation error => failed error.diagnostic
  | file error => lit "Error: " ++ error.message
where
  /-- A diagnostic under the heading of failures. -/
  failed (d : Diagnostic Details) : Text := lit "✗ " ++ d.render

end CommandError

namespace Workplace

/-- The content of a file. -/
def read (w : Workplace) (source : Source) (path : Text) : Except CommandError Text :=
  match w.tree.find w.current path with
  | .error _ => .error (.absent source path)
  | .ok (.file content) => .ok content
  | .ok (.directory _) => .error (.file .readDirectory)

/-- The content of the file of some name in a directory. -/
def readIn (w : Workplace) (place : Place) (name : Text) : Except CommandError (Text × Text) :=
  match w.tree.files.get? (place ++ [name]) with
  | some content => .ok (name, content)
  | none => .error (.file .readDirectory)

/-- The files of a directory whose names are asked for, with their contents, in the order of
    their names. -/
def readAll (w : Workplace) (source : Source) (asked : Text → Bool) (path : Text) :
    Except CommandError (List (Text × Text)) :=
  match w.tree.find w.current path with
  | .error _ => .error (.absent source path)
  | .ok (.file _) => .error (.file (.listFile path))
  | .ok (.directory place) =>
    (sort ((w.tree.namesIn place).filter asked)).mapM (w.readIn place)

end Workplace

/-- A directory that is to be there and the files that are to be written, by path. -/
structure Delivery where
  directory : Text
  files : List (Text × Text)
  deriving DecidableEq

namespace Delivery

/-- Write files until one is refused. -/
def writeFiles (current : Place) (tree : FileTree) :
    List (Text × Text) → FileTree × Option FileError
  | [] => (tree, none)
  | (path, content) :: rest =>
    match tree.write current path content with
    | (tree, none) => writeFiles current tree rest
    | (tree, some e) => (tree, some e)

/-- The tree after a delivery, and what was refused. -/
def perform (d : Delivery) (w : Workplace) : FileTree × Option FileError :=
  match w.tree.makeDirectory w.current d.directory with
  | (tree, none) => writeFiles w.current tree d.files
  | (tree, some e) => (tree, some e)

end Delivery

end MagmaTrace
