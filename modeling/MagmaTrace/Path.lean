import MagmaTrace.Text.Cut

/-! # Paths

A path names a file by the directories on the way to it, with slashes between. The path
functions here look at the text alone: `.` is nothing and `..` takes back the name before it.
-/

namespace MagmaTrace.Path

open Text

def separator : CodeUnit := '/'

def here : Text := lit "."

def up : Text := lit ".."

def isAbsolute (path : Text) : Bool := path.head? == some separator

/-- Take one more part of a path to the parts before it, the last of which comes first. Above
    the top, `..` is kept if `aboveTop` allows it. -/
def push (aboveTop : Bool) (parts : List Text) (part : Text) : List Text :=
  if part = [] ∨ part = here then parts
  else if part = up then
    match parts with
    | [] => if aboveTop then [up] else []
    | last :: rest => if last = up then up :: parts else rest
  else part :: parts

/-- The parts of a path after all `.` and `..` are taken out, as far as they can be. -/
def parts (aboveTop : Bool) (path : Text) : List Text :=
  ((splitAt separator path).foldl (push aboveTop) []).reverse

/-- The parts as a path. -/
def write (parts : List Text) : Text := join [separator] parts

/-- The shortest path of the same meaning. A slash at the end stays. -/
def normalize (path : Text) : Text :=
  if path = [] then here
  else
    let absolute := isAbsolute path
    let body := write (parts (!absolute) path)
    let closing : Text := if path.getLast? = some separator then [separator] else []
    if body = [] then (if absolute then [separator] else here ++ closing)
    else (if absolute then [separator] else []) ++ body ++ closing

/-- Two paths one after the other, normalized. An empty one is left out. -/
def append (first second : Text) : Text :=
  normalize (write ([first, second].filter (· ≠ [])))

/-- The absolute path that is reached from an absolute one by following the others in turn. -/
def resolve (start : Text) (steps : List Text) : Text :=
  let full := steps.foldl (fun path step =>
    if isAbsolute step then step else path ++ separator :: step) start
  separator :: write (parts false full)

/-- The last name of a path. Slashes at its end are passed over. -/
def fileName (path : Text) : Text :=
  ((dropEndWhile (· == separator) path).reverse.takeWhile (· != separator)).reverse

/-- The end of a name from its last period on. A period that starts the name does not count,
    and `..` has no such end. -/
def extensionOf (name : Text) : Text :=
  if name = up then []
  else
    let ending := name.reverse.takeWhile (· != ('.' : CodeUnit))
    if ending.length + 1 < name.length then name.drop (name.length - (ending.length + 1)) else []

/-- The last name of a path without its extension. -/
def stem (path : Text) : Text :=
  let name := fileName path
  name.take (name.length - (extensionOf name).length)

/-- The parts of an absolute path without the last. -/
def directory (path : Text) : Text := separator :: write (parts false path).dropLast

/-- Where the script of a transcript goes: the transcript's name with another extension, in a
    directory that is looked up from the current one. -/
def ofScript (current transcript directory : Text) : Text :=
  resolve current [directory, stem transcript ++ lit ".lean"]

/-- Where the problems of a file of proofs go: a directory named for the first number in the
    file's name. -/
def ofProblems (proofs root : Text) : Text :=
  let number := ((first? (run? isDigit) (stem proofs)).map (·.1)).getD (lit "0")
  append root (lit "input" ++ number)

/-- The directory of problems when nothing else is said. -/
def problemRoot : Text := lit "benchmarks"

end MagmaTrace.Path
