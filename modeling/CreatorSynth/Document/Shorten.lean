import CreatorSynth.Decl.Unit
import CreatorSynth.Text.Capital

/-! Qualified names written short where the short name is free in a file, and the imports that
takes. -/
namespace CreatorSynth
open Text

/-- A segment that begins with a capital names a class. -/
def namesClass (segment : String) : Bool :=
  segment.toList.head?.any isUppercase

/-- A name cut in front of its first class: the package, the class, and the classes nested in it.
A name without a package is not cut. -/
def cutPackage? (name : String) : Option (String × String × List String) :=
  let parts := segments name
  match parts.takeWhile (!namesClass ·), parts.dropWhile (!namesClass ·) with
  | package@(_ :: _), top :: nested => some (joinSegments package, top, nested)
  | _, _ => none

namespace CompilationUnit

/-- In the file the simple name means another class than the qualified one. -/
def bindsElsewhere (u : CompilationUnit) (simple qualified : String) : Bool :=
  (u.imports.any fun i => i.bound? == some simple && i.path != qualified) ||
    (u.classPaths.any fun found =>
      u.nameOf? found.1 == some simple && u.qualify found.2 != qualified)

/-- The short form of a name, and the import it takes; none if the name stays as it is. -/
def shortName? (u : CompilationUnit) (name : String) : Option (String × Option String) :=
  match cutPackage? name with
  | none => none
  | some (package, top, nested) =>
      let qualified := package ++ "." ++ top
      if u.bindsElsewhere top qualified then none
      else
        let known := u.package == some package || package == "java.lang" || u.hasImport qualified
        some (joinSegments (top :: nested), if known then none else some qualified)

/-- The name as it is written in the file. -/
def shorten (u : CompilationUnit) (name : String) : String :=
  ((u.shortName? name).map (·.1)).getD name

/-- The import that the short form of a name takes. -/
def importFor? (u : CompilationUnit) (name : String) : Option String :=
  (u.shortName? name).bind (·.2)

end CompilationUnit

namespace MethodDecl

/-- The names of annotations and types in the head of a declaration, in the order in which imports
are asked for. -/
def references (m : MethodDecl) : List String :=
  m.modifiers.annotations.map (·.name) ++
    m.typeParams.flatMap (fun p => p.bounds.flatMap (·.names)) ++
    m.params.flatMap (fun p => p.modifiers.annotations.map (·.name) ++ p.type.names) ++
    m.throws.flatMap (·.names)

/-- These names replaced. -/
def renameReferences (f : String → String) (m : MethodDecl) : MethodDecl :=
  let renameMarks (modifiers : Modifiers) : Modifiers :=
    { modifiers with annotations := modifiers.annotations.map fun a => { a with name := f a.name } }
  { m with
    modifiers := renameMarks m.modifiers
    typeParams := m.typeParams.map (·.rename f)
    params := m.params.map fun p =>
      { p with modifiers := renameMarks p.modifiers, type := p.type.rename f }
    throws := m.throws.map (·.rename f) }

/-- The declaration with short names, and the imports they take, each once. -/
def shortenReferences (m : MethodDecl) (u : CompilationUnit) : MethodDecl × List String :=
  (m.renameReferences u.shorten, (m.references.filterMap u.importFor?).eraseDups)

end MethodDecl

end CreatorSynth
