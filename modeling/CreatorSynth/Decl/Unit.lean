import CreatorSynth.Decl.Basic

/-! A whole source file. Its classes stand in one list, a nested class before the one around it,
and refer to each other by place. -/
namespace CreatorSynth
open Text

structure Import where
  path : String
  isStatic : Bool
  /-- Ends with a star. -/
  onDemand : Bool
  span : Span
  deriving DecidableEq, Repr

namespace Import

/-- The simple name bound by an import of one type. -/
def bound? (i : Import) : Option String :=
  if i.isStatic || i.onDemand then none else some (simpleName i.path)

/-- The import makes a class of that qualified name known. -/
def covers (i : Import) (path : String) : Bool :=
  !i.isStatic &&
    (i.path == path || (i.onDemand && ((splitLast? path).any fun parts => parts.1 == i.path)))

end Import

structure CompilationUnit where
  package : Option String
  imports : List Import
  /-- Where the package declaration and the imports end. -/
  headerEnd : Nat
  classes : List ClassDecl
  topLevel : List ClassId
  deriving DecidableEq, Repr

namespace CompilationUnit

def empty : CompilationUnit :=
  ⟨none, [], 0, [], []⟩

def class? (u : CompilationUnit) (id : ClassId) : Option ClassDecl :=
  u.classes[id]?

/-- A class and those nested in it, outer ones first, with their dotted paths; at most `depth`
levels of nesting. -/
def pathsFrom (u : CompilationUnit) : (depth : Nat) → (outer : Option String) → ClassId →
    List (ClassId × String)
  | 0, _, _ => []
  | depth + 1, outer, id =>
      match u.class? id with
      | none => []
      | some c =>
          let path := match outer with
            | some outer => outer ++ "." ++ c.name
            | none => c.name
          (id, path) :: c.nested.flatMap (pathsFrom u depth (some path))

/-- Every class with its path below the package, in source order. A class is nested less deep than
there are classes. -/
def classPaths (u : CompilationUnit) : List (ClassId × String) :=
  u.topLevel.flatMap (u.pathsFrom u.classes.length none)

def nameOf? (u : CompilationUnit) (id : ClassId) : Option String :=
  (u.class? id).map (·.name)

/-- The first class of that path, else the first of that simple name. -/
def findClass? (u : CompilationUnit) (name : String) : Option ClassId :=
  let byPath := u.classPaths.find? fun entry => entry.2 == name
  let byName := u.classPaths.find? fun entry => u.nameOf? entry.1 == some name
  (byPath.or byName).map (·.1)

def pathOf? (u : CompilationUnit) (id : ClassId) : Option String :=
  (u.classPaths.find? fun entry => entry.1 == id).map (·.2)

/-- The path behind the package. -/
def qualify (u : CompilationUnit) (path : String) : String :=
  match u.package with
  | some package => package ++ "." ++ path
  | none => path

def hasImport (u : CompilationUnit) (path : String) : Bool :=
  u.imports.any (·.covers path)

end CompilationUnit

end CreatorSynth
