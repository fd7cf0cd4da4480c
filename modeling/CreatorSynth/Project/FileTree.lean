import CreatorSynth.PathName

/-! Files by the names on the way to them. A directory is there if it is listed or holds something
that is there. -/
namespace CreatorSynth

structure FileTree where
  files : List (List String × String)
  directories : List (List String)
  deriving DecidableEq, Repr

namespace FileTree

/-- Files of a directory by their paths in it. -/
def ofFiles (directory : String) (files : List (String × String)) : FileTree where
  files := files.map fun file => (PathName.names (PathName.join directory file.1), file.2)
  directories := [PathName.names directory]

def holdsDirectory (t : FileTree) (place : List String) : Bool :=
  place.isEmpty || t.directories.any (place.isPrefixOf ·) ||
    t.files.any fun file => place.isPrefixOf file.1 && place != file.1

/-- Goes on from a place. Two dots lead to the directory around a directory. -/
def walk (t : FileTree) : (place names : List String) → Option (List String)
  | place, [] => some place
  | place, name :: names =>
      if name = ".." then
        if t.holdsDirectory place then t.walk place.dropLast names else none
      else t.walk (place ++ [name]) names

/-- The place a path leads to. -/
def place? (t : FileTree) (path : String) : Option (List String) :=
  t.walk [] (PathName.names path)

def file? (t : FileTree) (path : String) : Option String :=
  if PathName.endsInDirectory path then none
  else (t.place? path).bind fun place => t.files.lookup place

def hasDirectory (t : FileTree) (path : String) : Bool :=
  (t.place? path).any t.holdsDirectory

/-- A file or a directory is at the end of the path. -/
def holds (t : FileTree) (path : String) : Bool :=
  (t.file? path).isSome || t.hasDirectory path

/-- A file can be at a place: no directory is there, and no file is on the way. -/
def takesFile (t : FileTree) (place : List String) : Bool :=
  !t.holdsDirectory place && !t.files.any fun file => file.1.isPrefixOf place && file.1 != place

/-- The tree with a text in a file, in place of an older one. Directories that are missing come
with it. Nothing if no file can be there. -/
def write? (t : FileTree) (path text : String) : Option FileTree :=
  if PathName.endsInDirectory path then none
  else match (t.place? path).filter t.takesFile with
    | none => none
    | some place =>
        if t.files.any (·.1 == place) then
          some { t with files := t.files.map fun file => if file.1 = place then (place, text) else file }
        else some { t with files := t.files ++ [(place, text)] }

/-- The files in a directory and in those below it. -/
def filesBelow (t : FileTree) (path : String) : List (List String × String) :=
  match t.place? path with
  | none => []
  | some place => t.files.filter fun file => place.isPrefixOf file.1 && place != file.1

end FileTree

end CreatorSynth
