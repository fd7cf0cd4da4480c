import CreatorSynth.Document.Basic
import CreatorSynth.Document.Shorten
import CreatorSynth.Model.Index

/-! Creator constructors generated for a class of a document and inserted with their imports. -/
namespace CreatorSynth

inductive Outcome
  | inserted (className : String) (constructors imports : List String)
  /-- The class has all these constructors. -/
  | nothingToGenerate
  deriving DecidableEq, Repr

/-- Name and parameters of a constructor. -/
def MethodDecl.headline (m : MethodDecl) : String :=
  m.name ++ "(" ++ paramListText m.params ++ ")"

namespace Document

/-- What the class offers to a constructor. -/
def describe (d : Document) (index : ClassIndex) (className : String) :
    Except EditorError ClassDescriptor :=
  match d.unit.findClass? className with
  | none => .error (.classNotFound className)
  | some id =>
      match d.unit.class? id with
      | none => .error (.classNotFound className)
      | some c =>
          if !c.takesCreator then .error (.invalidTarget c.kind c.name)
          else match index.describe? d.unit id with
            | some descriptor => .ok descriptor
            | none => .error (.generate (.invalidTarget (.noClass id)))

/-- What can be selected for a constructor of the class. -/
def candidates (d : Document) (index : ClassIndex) (className : String) :
    Except EditorError (List Candidate) :=
  (d.describe index className).map (·.members)

/-- The constructors for a selection, with full names. -/
def prototypes (d : Document) (options : Options) (descriptor : ClassDescriptor)
    (selection : List Candidate) : Except EditorError (List MethodDecl) :=
  match { options with target := d.dialect }.generate descriptor selection with
  | .ok found => .ok found
  | .error e => .error (.generate e)

/-- The imports and members that bring constructors into the class. -/
def insertions (d : Document) (className : String) (shortened : List (MethodDecl × List String)) :
    List Mutation :=
  ((shortened.flatMap (·.2)).eraseDups.map Mutation.addImport) ++
    shortened.map fun s => .insertMember className (s.1.text d.dialect)

/-- Generates constructors for a selection and inserts them. If anything fails, the document is as
it was. -/
def perform (options : Options) (index : ClassIndex) (className : String)
    (selection : List Candidate) : Editing Outcome := do
  let d ← get
  let descriptor ← liftExcept (d.describe index className)
  let found ← liftExcept (d.prototypes options descriptor selection)
  if found.isEmpty then return .nothingToGenerate
  let shortened := found.map (·.shortenReferences d.unit)
  let _ ← applyAll (d.insertions className shortened)
  return .inserted descriptor.name (shortened.map (·.1.headline))
    (shortened.flatMap (·.2)).eraseDups

end Document

end CreatorSynth
