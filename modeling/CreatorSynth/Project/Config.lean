import CreatorSynth.Json.Decode
import CreatorSynth.Model.Index
import CreatorSynth.Project.FileTree

/-! The configuration of a project, and the index of its sources. -/
namespace CreatorSynth
open Json

/-- Why there is no configuration to go by. -/
inductive ConfigFault
  /-- A directory is in the place of the file. -/
  | isDirectory
  /-- The file holds something else. -/
  | malformed
  deriving DecidableEq, Repr

structure Config where
  /-- Directories with sources of superclasses. -/
  sourceRoots : List String
  generator : Options
  deriving DecidableEq, Repr

namespace Config

def fileName : String :=
  "jsoncreator.config.json"

def standard : Config :=
  ⟨["src"], Options.standard⟩

def toJson (c : Config) : Json :=
  .object [("sourceRoots", .strings c.sourceRoots), ("generator", c.generator.toJson)]

def ofJson? (j : Json) : Option Config := do
  let members ← members? ["sourceRoots", "generator"] j
  return {
    sourceRoots := ← member? members "sourceRoots" texts? standard.sourceRoots
    generator := ← member? members "generator" Options.ofJson? standard.generator }

/-- The configuration in a directory, the standard one when nothing is in its place. -/
def load (t : FileTree) (directory : String) : Except ConfigFault Config :=
  let path := PathName.join directory fileName
  match t.file? path with
  | some text => ((Json.parse? text).bind ofJson?).elim (.error .malformed) .ok
  | none => if t.hasDirectory path then .error .isDirectory else .ok standard

/-- The paths of the source roots that are there. -/
def presentRoots (c : Config) (t : FileTree) (directory : String) : List String :=
  (c.sourceRoots.map (PathName.join directory)).filter t.hasDirectory

end Config

def sourceExtensions : List String :=
  ["java", "groovy", "gvy"]

/-- The name of a file tells that it is a source. -/
def isSourceName (name : String) : Bool :=
  (PathName.extension? name).any (sourceExtensions.contains ·)

/-- The classes of all sources below the source roots but one file. A source that cannot be read is
passed over; one below two roots counts twice. -/
def Config.buildIndex (c : Config) (t : FileTree) (directory skipped : String) : ClassIndex :=
  let files := (c.presentRoots t directory).flatMap t.filesBelow
  let wanted := files.filter fun file =>
    some file.1 != t.place? skipped && file.1.getLast?.any isSourceName
  ClassIndex.ofUnits <| wanted.filterMap fun file =>
    (parseUnit file.2 (Dialect.ofPath (file.1.getLastD ""))).toOption

end CreatorSynth
