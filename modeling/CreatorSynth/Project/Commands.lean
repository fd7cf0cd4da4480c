import CreatorSynth.Document.Creators
import CreatorSynth.Project.Config
import CreatorSynth.Project.Report

/-! The three commands, over a tree of files: write a configuration, list the candidates of a
class, generate constructors. A command prints, may fail, and leaves a tree behind. -/
namespace CreatorSynth

inductive CommandError
  | editor (error : EditorError)
  | report (report : ParseReport)
  | config (fault : ConfigFault)
  | cannotOpen (path : String)
  | cannotWrite (path : String)
  | noTarget (path : String)
  | noField (name : String)
  | noMember (index count : Nat)
  deriving DecidableEq, Repr

def CommandError.message : CommandError → String
  | editor error => error.message
  | report r => r.message
  | config .isDirectory => Config.fileName ++ " is a directory"
  | config .malformed => Config.fileName ++ " is no configuration"
  | cannotOpen path => "Cannot open " ++ path
  | cannotWrite path => "Cannot write " ++ path
  | noTarget path => path ++ " declares no class or enum to generate a constructor for"
  | noField name => "No selectable field named " ++ name
  | noMember index count => s!"Member index {index} is out of range ({count} candidates)"

structure Workspace where
  /-- The directory commands are given in. -/
  directory : String
  tree : FileTree
  printed : String
  deriving DecidableEq, Repr

/-- Steps that may fail and keep what was printed and written before. -/
abbrev Command := ExceptT CommandError (StateM Workspace)

namespace Command

def print (text : String) : Command Unit :=
  modify fun w => { w with printed := w.printed ++ text }

def printLine (line : String) : Command Unit :=
  print (line ++ "\n")

/-- The full path of a file. -/
def pathOf (file : String) : Command String := do
  return PathName.join (← get).directory file

def orThrow {α : Type} (error : CommandError) : Option α → Command α
  | some a => pure a
  | none => throw error

def write (file text : String) : Command Unit := do
  let path ← pathOf file
  let tree ← orThrow (.cannotWrite path) ((← get).tree.write? path text)
  modify fun w => { w with tree }

def editing {α : Type} : Except EditorError α → Command α
  | .ok a => pure a
  | .error e => throw (.editor e)

def loadConfig : Command Config := do
  let w ← get
  match Config.load w.tree w.directory with
  | .ok config => return config
  | .error fault => throw (.config fault)

/-- The document of a file. One that does not read is reported with its place. -/
def openDocument (file : String) : Command Document := do
  let path ← pathOf file
  let text ← orThrow (.cannotOpen path) ((← get).tree.file? path)
  match Document.ofFile path text with
  | .ok d => return d
  | .error (.parse e) => throw (.report (ParseReport.ofError e path text))
  | .error e => throw (.editor e)

/-- The class that is asked for, else the top-level class or enum named like the file, else the
first. -/
def targetClass (d : Document) : Option String → Command String
  | some className => pure className
  | none => do
      let decls := d.unit.topLevel.filterMap d.unit.class?
      let names := (decls.filter (·.takesCreator)).map (·.name)
      let named := names.find? fun name => some name == PathName.stem? d.path
      orThrow (.noTarget d.path) (named.or names.head?)

/-- Writes a configuration. What is in its place already is written over only by force. -/
def init (sourceRoots : List String) (force : Bool) : Command Unit := do
  let configPath ← pathOf Config.fileName
  if (← get).tree.holds configPath && !force then
    printLine ("⚠️ " ++ Config.fileName ++ " already exists")
    printLine "Use --force to overwrite"
    return
  printLine "📝 Initializing jsoncreator..."
  write Config.fileName (Config.mk sourceRoots Options.standard).toJson.pretty
  printLine ("  ✓ Created " ++ Config.fileName)
  let w ← get
  let missing := sourceRoots.filter fun root => !w.tree.hasDirectory (PathName.join w.directory root)
  print (String.join (missing.map fun root =>
    "  ⚠️ Source root " ++ root ++ "/ does not exist yet\n"))
  printLine ""
  printLine "Next steps:"
  printLine "  1. Run: jsoncreator members <File.java>"
  printLine "  2. Run: jsoncreator generate <File.java>"

/-- One candidate in a list. -/
def candidateLine (i : Nat) (c : Candidate) : String :=
  let kind := if c.isBase then "constructor" else "field      "
  s!"  [{i}] " ++ kind ++ " " ++ c.label ++ "\n"

/-- What a command works on: the document, the class in it, the index of the other sources and the
options. -/
structure Target where
  document : Document
  className : String
  index : ClassIndex
  options : Options

def openTarget (file : String) (className : Option String) : Command Target := do
  let config ← loadConfig
  let d ← openDocument file
  let name ← targetClass d className
  let w ← get
  return ⟨d, name, config.buildIndex w.tree w.directory d.path, config.generator⟩

/-- Lists the candidates of a class. -/
def members (file : String) (className : Option String) (json : Bool) : Command Unit := do
  let target ← openTarget file className
  let found ← editing (target.document.candidates target.index target.className)
  if json then printLine (Json.ofList Candidate.toJson found).pretty
  else
    printLine ("🔍 " ++ target.className ++ s!" ({found.length} candidates)")
    print (String.join (found.mapIdx candidateLine))

/-- The fields and the first base constructor. -/
def selectByDefault : (baseSeen : Bool) → List Candidate → List Candidate
  | _, [] => []
  | baseSeen, c :: cs =>
      if c.isBase then
        if baseSeen then selectByDefault true cs else c :: selectByDefault true cs
      else c :: selectByDefault baseSeen cs

/-- The candidates picked by field name or by index, in the order of the candidates; the default
when nothing is picked. -/
def select (candidates : List Candidate) (fields : List String) (indices : List Nat) :
    Except CommandError (List Candidate) :=
  let names := (candidates.filterMap Candidate.field?).map (·.name)
  if fields.isEmpty && indices.isEmpty then .ok (selectByDefault false candidates)
  else match fields.find? (!names.contains ·) with
    | some name => .error (.noField name)
    | none =>
        match indices.find? (candidates.length ≤ ·) with
        | some index => .error (.noMember index candidates.length)
        | none =>
            let picked (i : Nat) (c : Candidate) : Bool :=
              indices.contains i || (c.field?.any fun f => fields.contains f.name)
            .ok ((candidates.mapIdx fun i c => if picked i c then some c else none).filterMap id)

/-- The lines that tell what was done. -/
def outcomeText (className : String) : Outcome → String
  | .inserted name constructors imports =>
      "✨ " ++ name ++ "\n" ++ String.join (constructors.map fun c => "  ✓ " ++ c ++ "\n") ++
        String.join (imports.map fun path => "  + import " ++ path ++ "\n")
  | .nothingToGenerate => "⚠️ " ++ className ++ " already has these constructors\n"

/-- What to generate for, and how to answer. -/
structure Request where
  file : String
  className : Option String
  fields : List String
  indices : List Nat
  /-- Print the source and write no file. -/
  toStdout : Bool
  json : Bool
  deriving DecidableEq, Repr

/-- Generates constructors and writes the file, unless nothing changed. -/
def generate (r : Request) : Command Unit := do
  let target ← openTarget r.file r.className
  let found ← editing (target.document.candidates target.index target.className)
  let selection ← liftExcept (select found r.fields r.indices)
  let (outcome, edited) :=
    (Document.perform target.options target.index target.className selection).run.run target.document
  let outcome ← editing outcome
  if r.toStdout then print edited.source
  else if edited.isDirty then write r.file edited.source
  if r.json then printLine outcome.toJson.pretty
  else if !r.toStdout then print (outcomeText target.className outcome)

end Command

end CreatorSynth
