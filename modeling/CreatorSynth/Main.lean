import CreatorSynth.Project.Arguments

/-! The program: reads the files that a command may look at, runs the command on them, and writes
the files it changed. -/
namespace CreatorSynth

/-- The text of a file, if there is one. -/
def readIfThere (path : String) : IO (Option String) := do
  try return some (← IO.FS.readFile path)
  catch _ => return none

/-- The paths of all files below a directory; none if there is no such directory. -/
def pathsBelow (directory : String) : IO (Option (List String)) := do
  try
    let root ← IO.FS.realPath directory
    if !(← root.isDir) then return none
    let paths ← root.walkDir
    return some (paths.toList.map fun path => directory ++ (path.toString.drop root.toString.length).toString)
  catch _ => return none

/-- Whether there is a directory at the end of a path. -/
def isDirectory (path : String) : IO Bool := do
  try (← IO.FS.realPath path).isDir
  catch _ => return false

/-- The files that are there among some paths. -/
def readAll (paths : List String) : IO (List (String × String)) := do
  let texts ← paths.mapM fun path => return (path, ← readIfThere path)
  return texts.filterMap fun (path, text) => text.map fun text => (path, text)

/-- The configuration, the file of the command and the sources below the source roots. -/
def readTree (directory : String) (invocation : Invocation) : IO FileTree := do
  let configPath := PathName.join directory Config.fileName
  let named := configPath :: (invocation.file?.map (PathName.join directory)).toList
  let start := FileTree.ofFiles directory (← readAll named)
  let roots := match invocation, Config.load start directory with
    | .init sourceRoots _, _ => sourceRoots
    | _, .ok config => config.sourceRoots
    | _, .error _ => []
  let found ← (roots.map (PathName.join directory)).mapM fun root =>
    return (root, ← pathsBelow root)
  let present := found.filterMap fun (root, paths) => paths.map fun paths => (root, paths)
  let sources := (present.flatMap (·.2)).filter isSourceName
  let whole := FileTree.ofFiles directory (← readAll (named ++ sources).eraseDups)
  let directories := present.map (·.1) ++ if ← isDirectory configPath then [configPath] else []
  return { whole with directories := whole.directories ++ directories.map PathName.names }

/-- Writes the files whose text is new. -/
def writeChanges (before after : FileTree) : IO Unit :=
  after.files.forM fun (place, text) => do
    if before.files.lookup place ≠ some text then IO.FS.writeFile ("/" ++ "/".intercalate place) text

end CreatorSynth

open CreatorSynth in
/-- Runs the command of a command line. -/
def main (args : List String) : IO UInt32 := do
  match Invocation.ofWords? args with
  | none =>
      IO.eprint usage
      return 2
  | some invocation =>
      let directory := (← IO.currentDir).toString
      let tree ← readTree directory invocation
      let (result, after) := invocation.command.run.run ⟨directory, tree, ""⟩
      writeChanges tree after.tree
      IO.print after.printed
      match result with
      | .ok () => return 0
      | .error e =>
          IO.eprintln ("\nError: " ++ e.message ++ "\n")
          return 1
