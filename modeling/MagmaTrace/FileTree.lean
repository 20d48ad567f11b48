import MagmaTrace.Path
import MagmaTrace.Registry
import MagmaTrace.Text.Order

/-! # Trees of files

The files that a command reads and writes are a value: a tree of named directories with files
in them. A path is followed from the root or from a current directory, name by name.
-/

namespace MagmaTrace

open Text

/-- The names on the way from the root to a file or directory. -/
abbrev Place := List Text

/-- The contents of files by place. Directories without files are listed; all others are known
    from the files below them. -/
structure FileTree where
  files : Registry Place Text
  directories : List Place
  deriving DecidableEq

/-- What a path leads to. -/
inductive Node where
  | file (content : Text)
  | directory (place : Place)
  deriving DecidableEq

/-- Why a path leads to nothing: a name is missing, or a file stands where a directory should. -/
inductive Absence where
  | missing
  | belowFile
  deriving DecidableEq

/-- What the file system refuses to do. -/
inductive FileError where
  | listFile (path : Text)
  | readDirectory
  | writeDirectory (path : Text)
  | writeLongName (path : Text)
  | makeNothing (path : Text)
  | makeOverFile (path : Text)
  | makeBelowFile (path : Text)
  | makeLongName (path : Text)
  deriving DecidableEq

/-- The wording of a refusal. -/
def FileError.message : FileError → Text
  | listFile path => lit "ENOTDIR: not a directory, scandir '" ++ path ++ lit "'"
  | readDirectory => lit "EISDIR: illegal operation on a directory, read"
  | writeDirectory path => lit "EISDIR: illegal operation on a directory, open '" ++ path ++ lit "'"
  | writeLongName path => lit "ENAMETOOLONG: name too long, open '" ++ path ++ lit "'"
  | makeNothing path => lit "ENOENT: no such file or directory, mkdir '" ++ path ++ lit "'"
  | makeOverFile path => lit "EEXIST: file already exists, mkdir '" ++ path ++ lit "'"
  | makeBelowFile path => lit "ENOTDIR: not a directory, mkdir '" ++ path ++ lit "'"
  | makeLongName path => lit "ENAMETOOLONG: name too long, mkdir '" ++ path ++ lit "'"

namespace FileTree

def empty : FileTree := ⟨∅, []⟩

/-- Whether there is a directory at a place. -/
def isDirectory (t : FileTree) (place : Place) : Bool :=
  place == [] || t.directories.contains place ||
    t.files.keys.any fun file => place.isPrefixOf file && place != file

/-- Where a path starts to be followed. -/
def startOf (current : Place) (path : Text) : Place :=
  if Path.isAbsolute path then [] else current

/-- Follow names from a directory. -/
def follow (t : FileTree) (place : Place) : List Text → Except Absence Node
  | [] => .ok (.directory place)
  | name :: rest =>
    if name = [] ∨ name = Path.here then t.follow place rest
    else if name = Path.up then t.follow place.dropLast rest
    else
      let next := place ++ [name]
      match t.files.get? next with
      | some content => if rest = [] then .ok (.file content) else .error .belowFile
      | none => if t.isDirectory next then t.follow next rest else .error .missing

/-- What a path leads to. The empty path leads to nothing. -/
def find (t : FileTree) (current : Place) (path : Text) : Except Absence Node :=
  if path = [] then .error .missing
  else t.follow (startOf current path) (splitAt Path.separator path)

/-- The names in a directory. -/
def namesIn (t : FileTree) (place : Place) : List Text :=
  firstMentions ((t.files.keys ++ t.directories).filterMap fun p =>
    if place.isPrefixOf p then p[place.length]? else none)

/-- Put a directory at a place. -/
def addDirectory (t : FileTree) (place : Place) : FileTree :=
  { t with directories := addNew t.directories place }

/-- Whether a name is too long for a file or directory: it takes more than 255 bytes. -/
def isTooLong (name : Text) : Bool := 255 < name.toString.utf8ByteSize

/-- Follow names from a directory and make the directories that are missing. -/
def makeFrom (t : FileTree) (path : Text) (place : Place) : List Text → FileTree × Option FileError
  | [] => (t, none)
  | name :: rest =>
    if name = [] ∨ name = Path.here then t.makeFrom path place rest
    else if name = Path.up then t.makeFrom path place.dropLast rest
    else if isTooLong name then (t, some (.makeLongName path))
    else
      let next := place ++ [name]
      if t.files.contains next then
        (t, some (if rest = [] then .makeOverFile path else .makeBelowFile path))
      else if t.isDirectory next then t.makeFrom path next rest
      else (t.addDirectory next).makeFrom path next rest

/-- Make the directory that a path leads to, with all directories on the way. -/
def makeDirectory (t : FileTree) (current : Place) (path : Text) : FileTree × Option FileError :=
  if path = [] then (t, some (.makeNothing path))
  else t.makeFrom path (startOf current path) (splitAt Path.separator path)

/-- The place that a path names, whatever is there. -/
def placeOf (current : Place) (path : Text) : Place :=
  ((splitAt Path.separator path).foldl (Path.push false) (startOf current path).reverse).reverse

/-- Write a file into a directory that is there. -/
def write (t : FileTree) (current : Place) (path content : Text) : FileTree × Option FileError :=
  let place := placeOf current path
  if place.any isTooLong then (t, some (.writeLongName path))
  else if t.isDirectory place then (t, some (.writeDirectory path))
  else ({ t with files := t.files.insert place content }, none)

/-- The files that are new or have other contents than before. -/
def changes (old new : FileTree) : List (Place × Text) :=
  new.files.entries.filter fun (place, content) => old.files.get? place != some content

end FileTree

end MagmaTrace
