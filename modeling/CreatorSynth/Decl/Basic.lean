import CreatorSynth.Decl.Modifiers
import CreatorSynth.TypeRef

/-! Declarations of a class and its members. Expressions, and statements other than calls of a
constructor and assignments, are kept as text. -/
namespace CreatorSynth

structure Param where
  modifiers : Modifiers
  type : TypeRef
  name : String
  varargs : Bool
  span : Span
  deriving DecidableEq, Repr

namespace Param

def ofType (name : String) (type : TypeRef) : Param :=
  ⟨Modifiers.empty, type, name, false, Span.none⟩

/-- The type of the value received: a variable number of arguments makes an array. -/
def effectiveType (p : Param) : TypeRef :=
  if p.varargs then p.type.array 1 else p.type

end Param

inductive Statement
  | superCall (args : List String) (span : Span)
  | thisCall (args : List String) (span : Span)
  /-- Of a field, named alone or behind `this`. -/
  | assign (qualified : Bool) (field value : String) (span : Span)
  /-- Any other statement, without its terminator. -/
  | other (text : String) (span : Span)
  deriving DecidableEq, Repr

structure Block where
  statements : List Statement
  span : Span
  deriving DecidableEq, Repr

/-- A method, or a constructor when there is no return type. -/
structure MethodDecl where
  modifiers : Modifiers
  typeParams : List TypeParam
  returnType : Option TypeRef
  name : String
  params : List Param
  throws : List TypeRef
  body : Option Block
  doc : Option String
  span : Span
  deriving DecidableEq, Repr

namespace MethodDecl

def isConstructor (m : MethodDecl) : Bool :=
  m.returnType.isNone

def isVarargs (m : MethodDecl) : Bool :=
  m.params.getLast?.any (·.varargs)

end MethodDecl

/-- One variable of a field declaration, which may declare several. -/
structure FieldDecl where
  modifiers : Modifiers
  type : TypeRef
  name : String
  initializer : Option String
  doc : Option String
  span : Span
  deriving DecidableEq, Repr

structure EnumConstant where
  name : String
  args : Option String
  span : Span
  deriving DecidableEq, Repr

/-- The place of a class among those of its unit. -/
abbrev ClassId := Nat

inductive Member
  | field (decl : FieldDecl)
  | constructor (decl : MethodDecl)
  | method (decl : MethodDecl)
  | nested (id : ClassId) (span : Span)
  | constant (decl : EnumConstant)
  | initializer (isStatic : Bool) (span : Span)
  deriving DecidableEq, Repr

namespace Member

def span : Member → Span
  | field decl => decl.span
  | constructor decl | method decl => decl.span
  | constant decl => decl.span
  | nested _ span | initializer _ span => span

def field? : Member → Option FieldDecl
  | field decl => some decl
  | _ => none

def constructor? : Member → Option MethodDecl
  | constructor decl => some decl
  | _ => none

def constant? : Member → Option EnumConstant
  | constant decl => some decl
  | _ => none

def nested? : Member → Option ClassId
  | nested id _ => some id
  | _ => none

end Member

inductive ClassKind
  | ordinary
  | interface
  | enum
  | record
  | annotationType
  deriving DecidableEq, Repr

/-- A class, interface, enum, record or annotation type. -/
structure ClassDecl where
  kind : ClassKind
  name : String
  modifiers : Modifiers
  typeParams : List TypeParam
  extends? : Option TypeRef
  implements : List TypeRef
  recordComponents : List Param
  members : List Member
  doc : Option String
  /-- From the opening brace to the closing one. -/
  bodySpan : Span
  span : Span
  deriving DecidableEq, Repr

namespace ClassDecl

def fields (c : ClassDecl) : List FieldDecl :=
  c.members.filterMap Member.field?

def constructors (c : ClassDecl) : List MethodDecl :=
  c.members.filterMap Member.constructor?

/-- The classes declared directly in it. -/
def nested (c : ClassDecl) : List ClassId :=
  c.members.filterMap Member.nested?

/-- Only classes and enums have constructors to generate. -/
def takesCreator (c : ClassDecl) : Bool :=
  c.kind == .ordinary || c.kind == .enum

end ClassDecl

end CreatorSynth
