import CreatorSynth.Decl.Unit

/-! A class as the generator of constructors sees it, and what a constructor can be built from. -/
namespace CreatorSynth

/-- What the annotations of a field say about null. -/
inductive Nullability
  | unknown
  | notNull
  | nullable
  deriving DecidableEq, Repr

def notNullNames : List String :=
  ["NotNull", "Nonnull", "NonNull"]

def nullableNames : List String :=
  ["Nullable", "CheckForNull"]

/-- By its simple name. -/
def Annotation.nullability? (a : Annotation) : Option Nullability :=
  if notNullNames.contains a.simpleName then some .notNull
  else if nullableNames.contains a.simpleName then some .nullable
  else none

/-- What the first annotation with a meaning for null says. -/
def Modifiers.nullability (m : Modifiers) : Nullability :=
  (m.annotations.findSome? fun a => a.nullability?).getD .unknown

structure FieldDescriptor where
  name : String
  type : TypeRef
  nullability : Nullability
  annotations : List Annotation
  isStatic : Bool
  isFinal : Bool
  initialized : Bool
  deriving DecidableEq, Repr

namespace FieldDescriptor

def ofType (name : String) (type : TypeRef) : FieldDescriptor :=
  ⟨name, type, .unknown, [], false, false, false⟩

def ofDecl (f : FieldDecl) : FieldDescriptor where
  name := f.name
  type := f.type
  nullability := f.modifiers.nullability
  annotations := f.modifiers.annotations
  isStatic := f.modifiers.has "static"
  isFinal := f.modifiers.has "final"
  initialized := f.initializer.isSome

/-- A constructor can assign the field. -/
def assignable (f : FieldDescriptor) : Bool :=
  !(f.isStatic || (f.isFinal && f.initialized))

/-- The first annotation by which the field is never null. -/
def notNullMark? (f : FieldDescriptor) : Option Annotation :=
  f.annotations.find? fun a => notNullNames.contains a.simpleName

end FieldDescriptor

/-- Whether a constructor was read from a source or is known by its types only. -/
inductive Origin
  | source
  | binary
  deriving DecidableEq, Repr

structure BaseParam where
  name : Option String
  type : TypeRef
  modifiers : Modifiers
  varargs : Bool
  deriving DecidableEq, Repr

namespace BaseParam

def ofParam (p : Param) : BaseParam :=
  ⟨some p.name, p.type, p.modifiers, p.varargs⟩

def unnamed (type : TypeRef) : BaseParam :=
  ⟨none, type, Modifiers.empty, false⟩

def effectiveType (p : BaseParam) : TypeRef :=
  if p.varargs then p.type.array 1 else p.type

def text (p : BaseParam) : String :=
  let type := p.type.text ++ if p.varargs then "..." else ""
  match p.name with
  | some name => type ++ " " ++ name
  | none => type

end BaseParam

/-- Constructors are told apart by the erased types of their parameters. -/
abbrev Signature := List String

def MethodDecl.signature (m : MethodDecl) : Signature :=
  m.params.map (·.effectiveType.erasure)

/-- A constructor of the superclass. -/
structure BaseConstructor where
  params : List BaseParam
  throws : List TypeRef
  typeParams : List TypeParam
  doc : Option String
  visibility : Visibility
  origin : Origin
  deriving DecidableEq, Repr

namespace BaseConstructor

def ofDecl (m : MethodDecl) : BaseConstructor :=
  ⟨m.params.map BaseParam.ofParam, m.throws, m.typeParams, m.doc, m.modifiers.visibility, .source⟩

def signature (c : BaseConstructor) : Signature :=
  c.params.map (·.effectiveType.erasure)

/-- The call of it, with types for arguments. -/
def label (c : BaseConstructor) : String :=
  "super(" ++ ", ".intercalate (c.params.map (·.text)) ++ ")"

/-- Whether a subclass can call it. -/
def accessible (c : BaseConstructor) (samePackage : Bool) : Bool :=
  match c.visibility with
  | .priv => false
  | .pack => samePackage
  | .pub | .prot => true

/-- The types of the parameters, thrown types and bounds replaced. -/
def mapTypes (f : TypeRef → TypeRef) (c : BaseConstructor) : BaseConstructor :=
  { c with
    params := c.params.map fun p => { p with type := f p.type }
    throws := c.throws.map f
    typeParams := c.typeParams.map fun p => { p with bounds := p.bounds.map f } }

end BaseConstructor

def objectName : String :=
  "java.lang.Object"

def enumName : String :=
  "java.lang.Enum"

/-- The superclass of a class, as the class refers to it. -/
structure Superclass where
  qualifiedName : String
  /-- As written; none when the class is extended raw. -/
  typeArgs : List TypeArg
  typeParams : List TypeParam
  constructors : List BaseConstructor
  deriving DecidableEq, Repr

namespace Superclass

/-- A class of which only the name is known. -/
def unresolved (qualifiedName : String) (typeArgs : List TypeArg) : Superclass :=
  ⟨qualifiedName, typeArgs, [], []⟩

def isEnum (s : Superclass) : Bool :=
  s.qualifiedName == enumName

def isObject (s : Superclass) : Bool :=
  s.qualifiedName == objectName

end Superclass

/-- A member that can be selected for a constructor. -/
inductive Candidate
  | field (f : FieldDescriptor)
  | base (c : BaseConstructor)
  deriving DecidableEq, Repr

namespace Candidate

def field? : Candidate → Option FieldDescriptor
  | field f => some f
  | base _ => none

def base? : Candidate → Option BaseConstructor
  | base c => some c
  | field _ => none

def isBase (c : Candidate) : Bool :=
  c.base?.isSome

def label : Candidate → String
  | field f => f.type.text ++ " " ++ f.name
  | base c => c.label

end Candidate

structure ClassDescriptor where
  name : String
  qualifiedName : String
  kind : ClassKind
  visibility : Visibility
  typeParams : List TypeParam
  superclass : Option Superclass
  existingConstructors : List Signature
  /-- Constructors of the superclass, then fields. -/
  members : List Candidate
  deriving DecidableEq, Repr

namespace ClassDescriptor

def fields (c : ClassDescriptor) : List FieldDescriptor :=
  c.members.filterMap Candidate.field?

def baseConstructors (c : ClassDescriptor) : List BaseConstructor :=
  c.members.filterMap Candidate.base?

def field? (c : ClassDescriptor) (name : String) : Option FieldDescriptor :=
  c.fields.find? (·.name == name)

def hasConstructor (c : ClassDescriptor) (signature : Signature) : Bool :=
  c.existingConstructors.contains signature

end ClassDescriptor

end CreatorSynth
