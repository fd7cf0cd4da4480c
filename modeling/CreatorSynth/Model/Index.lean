import CreatorSynth.Model.Library
import CreatorSynth.Text.Capital

/-! An index of the classes of many sources, and what a class looks like through it. A class is
found by its qualified name, where the last source wins, or by its simple name, where it has to be
the only one. -/
namespace CreatorSynth
open Text

/-- A class in its unit, under its qualified name. -/
structure Entry where
  unit : CompilationUnit
  id : ClassId
  qualified : String
  deriving DecidableEq, Repr

namespace Entry

def decl? (e : Entry) : Option ClassDecl :=
  e.unit.class? e.id

def simple? (e : Entry) : Option String :=
  e.unit.nameOf? e.id

end Entry

/-- The entries of a unit, in source order. -/
def CompilationUnit.entries (u : CompilationUnit) : List Entry :=
  u.classPaths.map fun found => ⟨u, found.1, u.qualify found.2⟩

/-- Entries in the order they were added. -/
structure ClassIndex where
  entries : List Entry
  deriving DecidableEq, Repr

namespace ClassIndex

def empty : ClassIndex :=
  ⟨[]⟩

def add (index : ClassIndex) (u : CompilationUnit) : ClassIndex :=
  ⟨index.entries ++ u.entries⟩

def ofUnits (units : List CompilationUnit) : ClassIndex :=
  units.foldl add empty

/-- The entry added last under the name. -/
def lookup? (index : ClassIndex) (qualified : String) : Option Entry :=
  index.entries.reverse.find? (·.qualified == qualified)

/-- The only entry of that simple name. -/
def lookupSimple? (index : ClassIndex) (simple : String) : Option Entry :=
  match index.entries.filter (·.simple? == some simple) with
  | [e] => some e
  | _ => none

/-- The number of names that are found. -/
def size (index : ClassIndex) : Nat :=
  (index.entries.map (·.qualified)).eraseDups.length

def isEmpty (index : ClassIndex) : Bool :=
  index.entries.isEmpty

end ClassIndex

def primitiveTypes : List String :=
  ["boolean", "byte", "char", "short", "int", "long", "float", "double", "void"]

/-- Where a name stands: in a file, among type variables. -/
structure Scope where
  index : ClassIndex
  unit : CompilationUnit
  typeVariables : List String

/-- Whether a name begins with a character of the given case. -/
def beginsWith (p : Char → Bool) (name : String) : Bool :=
  name.toList.head?.any p

namespace Scope

def withParams (s : Scope) (params : List TypeParam) : Scope :=
  { s with typeVariables := s.typeVariables ++ params.map (·.name) }

/-- The name that means the same in any file: by the classes of the file, its imports of one type,
and, as far as the index knows them, its package and its imports on demand. Primitive types, type
variables, names behind a package and all other names stay as they are. -/
def qualifyName (s : Scope) (name : String) : String :=
  let (first, rest) := splitHead name
  if primitiveTypes.contains name || s.typeVariables.contains name then name
  else if rest.isSome && beginsWith isLowercase first then name
  else match (s.unit.findClass? first).bind s.unit.pathOf? with
    | some path => dotted (s.unit.qualify path) rest
    | none =>
        match s.unit.imports.find? (·.bound? == some first) with
        | some found => dotted found.path rest
        | none =>
            let packages := s.unit.package.toList ++
              (s.unit.imports.filter fun i => !i.isStatic && i.onDemand).map (·.path)
            match (packages.map (· ++ "." ++ first)).find? (s.index.lookup? · |>.isSome) with
            | some qualified => dotted qualified rest
            | none => name

def qualify (s : Scope) (t : TypeRef) : TypeRef :=
  t.rename s.qualifyName

end Scope

/-- The segments in front of the first that begins with a capital, if there are any. -/
def packageOf? (qualified : String) : Option String :=
  match (segments qualified).takeWhile (!beginsWith isUppercase ·) with
  | [] => none
  | parts => some (joinSegments parts)

namespace ClassIndex

/-- The superclass declared in a source, with the types of its constructors qualified there. -/
def superclassFromSource (index : ClassIndex) (unit : CompilationUnit) (decl : ClassDecl)
    (path : String) (type : TypeRef) : Superclass :=
  let scope := (Scope.mk index unit []).withParams decl.typeParams
  let base (m : MethodDecl) : BaseConstructor :=
    (BaseConstructor.ofDecl m).mapTypes (scope.withParams m.typeParams).qualify
  { qualifiedName := unit.qualify path
    typeArgs := type.args
    typeParams := decl.typeParams.map fun p => { p with bounds := p.bounds.map scope.qualify }
    constructors := decl.constructors.map base }

/-- The superclass at an entry. -/
def superclassAt (index : ClassIndex) (e : Entry) (type : TypeRef) : Option Superclass :=
  e.decl?.map fun decl =>
    index.superclassFromSource e.unit decl ((e.unit.pathOf? e.id).getD decl.name) type

/-- The qualified names a type of that name may have, the most likely first. -/
def qualifiedCandidates (unit : CompilationUnit) (name : String) : List String :=
  let (first, rest) := splitHead name
  let bySingle := (unit.imports.filter (·.bound? == some first)).map fun i => dotted i.path rest
  let byPackage := unit.package.toList.map (· ++ "." ++ name)
  let byDemand := (unit.imports.filter fun i => !i.isStatic && i.onDemand).map
    (·.path ++ "." ++ name)
  bySingle ++ byPackage ++ [name] ++ byDemand

/-- The class meant by the `extends` clause of a class: another class of the file, one of the index
by its qualified name, one of the library, or one of the index by its simple name. -/
def resolveType (index : ClassIndex) (unit : CompilationUnit) (inside : ClassId) (type : TypeRef) :
    Superclass :=
  let candidates := qualifiedCandidates unit type.name
  let inFile := ((unit.findClass? type.name).filter (· != inside)).bind fun id =>
    (unit.pathOf? id).bind fun path =>
      (unit.class? id).map fun decl => index.superclassFromSource unit decl path type
  let inIndex := (candidates.findSome? index.lookup?).bind (index.superclassAt · type)
  let inLibrary :=
    if (splitHead type.name).2.isNone || "java.lang.".toList.isPrefixOf type.name.toList then
      (Library.lookup? type.name).map fun base => { base with typeArgs := type.args }
    else none
  let bySimpleName := (index.lookupSimple? type.simpleName).bind (index.superclassAt · type)
  (((inFile.or inIndex).or inLibrary).or bySimpleName).getD
    (Superclass.unresolved (candidates.headD type.name) type.args)

/-- The superclass of a class. An enum has one of the library; interfaces, annotation types and
records have none. -/
def superclassOf? (index : ClassIndex) (unit : CompilationUnit) (id : ClassId) :
    Option Superclass :=
  (unit.class? id).bind fun decl =>
    match decl.kind with
    | .enum => (Library.lookup? enumName).map fun base =>
        { base with typeArgs := [.type (TypeRef.simple decl.name)] }
    | .ordinary =>
        match decl.extends? with
        | some type => some (index.resolveType unit id type)
        | none => Library.lookup? objectName
    | .interface | .annotationType | .record => none

/-- The constructors of a superclass that a class of the package can delegate to. The one of
`Object` needs no call. -/
def accessibleConstructors (package : Option String) (s : Superclass) : List BaseConstructor :=
  if s.isObject then []
  else s.constructors.filter (·.accessible (packageOf? s.qualifiedName == package))

/-- What a class of a unit offers to a constructor. The unit need not be indexed. -/
def describe? (index : ClassIndex) (unit : CompilationUnit) (id : ClassId) :
    Option ClassDescriptor :=
  (unit.class? id).map fun decl =>
    let superclass := index.superclassOf? unit id
    let bases := (superclass.map (accessibleConstructors unit.package)).getD []
    let fields := (decl.fields.map FieldDescriptor.ofDecl).filter (·.assignable)
    { name := decl.name
      qualifiedName := unit.qualify ((unit.pathOf? id).getD decl.name)
      kind := decl.kind
      visibility := decl.modifiers.visibility
      typeParams := decl.typeParams
      superclass := superclass
      existingConstructors := decl.constructors.map (·.signature)
      members := bases.map Candidate.base ++ fields.map Candidate.field }

end ClassIndex

end CreatorSynth
