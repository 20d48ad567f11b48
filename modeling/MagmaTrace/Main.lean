import MagmaTrace.Command.Run

/-! # The program

The part of the disk that a run may look at is read into a tree of files, the outcome of the
run is worked out, and what is new in its tree is written to the disk. Where a run writes is
known only from its outcome, so the disk is looked at there too before the outcome counts.
-/

namespace MagmaTrace.Main

open Text

/-- The path of a place on the disk. -/
def pathOf (place : Place) : String := Text.toString (Path.separator :: Path.write place)

/-- The place of a path on the disk. -/
def placeOf (path : String) : Place := FileTree.placeOf [] (lit path)

/-- Take the file at a place into a tree. -/
def takeFile (tree : FileTree) (place : Place) : IO FileTree := do
  let content ← IO.FS.readFile (pathOf place)
  return { tree with files := tree.files.insert place (lit content) }

/-- Take what is at a place into a tree, but nothing of what is in a directory. -/
def takeNode (tree : FileTree) (place : Place) : IO FileTree := do
  try
    let path ← IO.FS.realPath (pathOf place)
    if ← path.isDir then return tree.addDirectory place
    else if ← path.pathExists then takeFile tree place
    else return tree
  catch _ => return tree

/-- The names in the directory at a place that a command can ask for. -/
def namesAt (place : Place) : IO (List Text) := do
  try
    let path ← IO.FS.realPath (pathOf place)
    if ← path.isDir then
      let names := (← path.readDir).toList.map fun entry => lit entry.fileName
      return names.filter fun name =>
        EquationIndex.isSourceName name || LogReport.isLogName name
    else return []
  catch _ => return []

/-- Take what is at a place, on the way to it and, of a directory, directly in it into a
    tree. -/
def takePlace (tree : FileTree) (place : Place) : IO FileTree := do
  let way := (List.range place.length).map place.take
  let below := (← namesAt place).map fun name => place ++ [name]
  (way ++ [place] ++ below).foldlM takeNode tree

/-- The variables of the environment that settings are taken from. -/
def readEnvironment : IO Environment := do
  let found ← Setting.all.filterMapM fun s => do
    let value ← IO.getEnv (Text.toString s.environmentName)
    return value.map fun value => (s.environmentName, lit value)
  return Registry.ofList found

/-- The paths that a command line names, and those that stand in for paths not named. -/
def pathsOf (arguments : List Text) : List Text :=
  let a := Arguments.ofList arguments
  [lit ".env", Command.equationsDirectory] ++ a.words ++ a.options.map (·.2)

/-- The directories and files by which one tree goes beyond another. -/
def newPlaces (old new : FileTree) : List Place :=
  new.directories.filter (!old.directories.contains ·) ++ (old.changes new).map (·.1)

/-- Write to the disk what one tree has and another has not. -/
def writeOut (old new : FileTree) : IO Unit := do
  for place in new.directories.filter (!old.directories.contains ·) do
    IO.FS.createDirAll (pathOf place)
  for (place, content) in old.changes new do
    IO.FS.writeFile (pathOf place) (Text.toString content)

/-- Run on the disk. -/
def run (arguments : List Text) : IO UInt32 := do
  let current := placeOf (← IO.currentDir).toString
  let environment ← readEnvironment
  let places := (pathsOf arguments).map (FileTree.placeOf current)
  let read ← (current :: places).foldlM takePlace FileTree.empty
  let planned := Outcome.ofRun ⟨read, current⟩ environment arguments
  let tree ← (newPlaces read planned.tree).foldlM takePlace read
  let outcome := Outcome.ofRun ⟨tree, current⟩ environment arguments
  writeOut tree outcome.tree
  IO.print (Text.toString outcome.output)
  IO.eprint (Text.toString outcome.errors)
  return outcome.status

end MagmaTrace.Main

def main (arguments : List String) : IO UInt32 :=
  MagmaTrace.Main.run (arguments.map MagmaTrace.lit)
