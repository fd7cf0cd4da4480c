import CreatorSynth.Dialect
import CreatorSynth.Text.Split

/-! Paths as texts with slashes. -/
namespace CreatorSynth.PathName
open Text

/-- The names between the slashes. Empty names and single dots lead nowhere. -/
def names (path : String) : List String :=
  ((splitOn '/' path.toList).map String.ofList).filter fun name => name ≠ "" && name ≠ "."

/-- The last name, unless it leads upwards. -/
def fileName? (path : String) : Option String :=
  match (names path).getLast? with
  | some name => if name = ".." then none else some name
  | none => none

/-- A file name cut at its last dot. A dot in front of all else does not cut. -/
def cutExtension (name : String) : String × Option String :=
  let parts := splitOn '.' name.toList
  let stem := (['.'].intercalate parts.dropLast)
  if stem = [] then (name, none)
  else (String.ofList stem, parts.getLast?.map String.ofList)

def extension? (path : String) : Option String :=
  (fileName? path).bind fun name => (cutExtension name).2

def stem? (path : String) : Option String :=
  (fileName? path).map fun name => (cutExtension name).1

/-- A path that ends with a slash or a dot can only be that of a directory. -/
def endsInDirectory (path : String) : Bool :=
  match (splitOn '/' path.toList).getLast? with
  | some [] | some ['.'] => true
  | _ => false

/-- A path below a directory. An absolute path stays as it is. -/
def join (directory path : String) : String :=
  if path.toList.head? = some '/' then path
  else if directory.toList.getLast? = some '/' then directory ++ path
  else directory ++ "/" ++ path

end CreatorSynth.PathName

namespace CreatorSynth

/-- Groovy sources are told by their extension. -/
def Dialect.ofPath (path : String) : Dialect :=
  match PathName.extension? path with
  | some "groovy" | some "gvy" => groovy
  | _ => java

end CreatorSynth
