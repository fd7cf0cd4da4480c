import CreatorSynth.Creator.Prototype
import CreatorSynth.Document.Edit
import CreatorSynth.PathName

/-! A source that is edited. A step on a document answers or fails, and either way leaves a
document behind; an edit that does not read back is not kept. -/
namespace CreatorSynth

def ClassKind.text : ClassKind → String
  | ordinary => "Class"
  | interface => "Interface"
  | enum => "Enum"
  | record => "Record"
  | annotationType => "Annotation"

inductive EditorError
  | parse (error : ParseError)
  | generate (error : GenerateError)
  | mutation (error : MutationError)
  | classNotFound (className : String)
  | invalidTarget (kind : ClassKind) (className : String)
  | notFileBacked
  deriving DecidableEq, Repr

def EditorError.message : EditorError → String
  | parse error => "Parse error: " ++ error.message
  | generate error => "Generation error: " ++ error.message
  | mutation error => "Mutation error: " ++ error.message
  | classNotFound className => "Class not found: " ++ className
  | invalidTarget kind className =>
      "Cannot generate a JSON creator for " ++ kind.text ++ " " ++ className
  | notFileBacked => "Document is not file-backed"

/-- Where a document is kept. A file is dirty while it lacks changes of the document. -/
inductive Storage
  | memory
  | file (dirty : Bool)
  deriving DecidableEq, Repr

structure Document where
  path : String
  /-- The number of edits made. -/
  version : Nat
  dialect : Dialect
  source : String
  unit : CompilationUnit
  storage : Storage
  deriving DecidableEq, Repr

/-- Steps that may fail and keep the document all the same. -/
abbrev Editing := ExceptT EditorError (StateM Document)

/-- What came of mutations: the version then, and whether there was anything to change. -/
structure Applied where
  version : Nat
  changed : Bool
  deriving DecidableEq, Repr

namespace Document

def ofText (storage : Storage) (path source : String) : Except EditorError Document :=
  let dialect := Dialect.ofPath path
  match parseUnit source dialect with
  | .ok unit => .ok ⟨path, 0, dialect, source, unit, storage⟩
  | .error e => .error (.parse e)

/-- A document that is not kept in a file. -/
def ofSource (path source : String) : Except EditorError Document :=
  ofText .memory path source

/-- A document with the text of its file. -/
def ofFile (path source : String) : Except EditorError Document :=
  ofText (.file false) path source

def isDirty (d : Document) : Bool :=
  d.storage == .file true

/-- An unsaved change. A document in memory has none. -/
def Storage.touched : Storage → Storage
  | .memory => .memory
  | .file _ => .file true

/-- Makes an edit, if the source reads with it. -/
def splice (e : TextEdit) : Editing Unit := do
  let d ← get
  match e.applyTo? d.source with
  | none => throw (.mutation .fault)
  | some source =>
      match parseUnit source d.dialect with
      | .error err => throw (.parse err)
      | .ok unit =>
          set { d with source, unit, version := d.version + 1, storage := Storage.touched d.storage }

def apply (m : Mutation) : Editing Applied := do
  let d ← get
  match m.edit d.source d.unit d.dialect with
  | .error e => throw (.mutation e)
  | .ok none => return ⟨d.version, false⟩
  | .ok (some e) =>
      splice e
      return ⟨(← get).version, true⟩

/-- Mutations one after another; whether any of them changed anything. -/
def applyEach : List Mutation → Editing Bool
  | [] => return false
  | m :: ms => do
      let first ← apply m
      let others ← applyEach ms
      return first.changed || others

/-- Mutations as one change: if one fails, the document is as it was. -/
def applyAll (ms : List Mutation) : Editing Applied := do
  let before ← get
  try
    let changed ← applyEach ms
    return ⟨(← get).version, changed⟩
  catch e =>
    set before
    throw e

/-- The text to be written to the file, with which the document is saved. -/
def save : Editing String := do
  let d ← get
  match d.storage with
  | .memory => throw .notFileBacked
  | .file _ =>
      set { d with storage := .file false }
      return d.source

end Document

end CreatorSynth
