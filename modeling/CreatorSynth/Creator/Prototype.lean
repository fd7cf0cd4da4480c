import CreatorSynth.Creator.Body
import CreatorSynth.Creator.Options
import CreatorSynth.Model.Substitution
import CreatorSynth.Parser.Classes

/-! Constructors for a class from selected fields and constructors of its superclass. The body is
generated as text and read back. -/
namespace CreatorSynth
open Text

/-- What a class lacks for a request. -/
inductive TargetFault
  | noClass (id : ClassId)
  | nothingToDelegateTo (className : String)
  | noSuperclass (className : String)
  deriving DecidableEq, Repr

def TargetFault.message : TargetFault → String
  | noClass id => s!"no class with id {id}"
  | nothingToDelegateTo className => className ++ " has no superclass to delegate to"
  | noSuperclass className => className ++ " has no superclass"

/-- What cannot be written as a declaration. -/
inductive ConstructFault
  | className (name : String)
  | fieldName (name : String)
  | fieldType (name : String)
  | paramName (name : String)
  | paramType (name : String)
  | body (name : String)
  deriving DecidableEq, Repr

def ConstructFault.message : ConstructFault → String
  | className name => "'" ++ name ++ "' is not a valid class name"
  | fieldName name => "'" ++ name ++ "' is not a valid field name"
  | fieldType name => "field '" ++ name ++ "' has no type"
  | paramName name => "'" ++ name ++ "' is not a valid parameter name"
  | paramType name => "parameter '" ++ name ++ "' has no type"
  | body name => "generated text for " ++ name ++ " is not a constructor"

inductive GenerateError
  | invalidTarget (fault : TargetFault)
  | unsupported (fault : ConstructFault)
  /-- The generated body does not read back. -/
  | parse (error : ParseError)
  deriving DecidableEq, Repr

def GenerateError.message : GenerateError → String
  | invalidTarget fault => "Invalid target: " ++ fault.message
  | unsupported fault => "Cannot build construct: " ++ fault.message
  | parse error => "Generated body does not parse: " ++ error.message

/-- A statement with its raw texts trimmed. -/
def Statement.normalize : Statement → Statement
  | superCall args span => superCall (args.map trimmed) span
  | thisCall args span => thisCall (args.map trimmed) span
  | assign qualified field value span => assign qualified field (trimmed value) span
  | other text span => other (trimmed text) span

def Block.normalize (b : Block) : Block :=
  { b with statements := b.statements.map Statement.normalize }

/-- Modifier words in their order, each once, and raw texts trimmed. -/
def MethodDecl.normalize (m : MethodDecl) : MethodDecl :=
  { m with
    modifiers := m.modifiers.normalize
    params := m.params.map fun p => { p with modifiers := p.modifiers.normalize }
    body := m.body.map Block.normalize }

/-- The parameters of a base constructor as declared ones. One without a name is named by its
place. -/
def BaseConstructor.namedParams (c : BaseConstructor) : Except GenerateError (List Param) :=
  (c.params.mapIdx fun i p => (p.name.getD s!"arg{i}", p)).mapM fun (name, p) =>
    if !isIdentifier name then .error (.unsupported (.paramName name))
    else if p.type.name = "" then .error (.unsupported (.paramType name))
    else .ok ⟨p.modifiers, p.type, name, p.varargs, Span.none⟩

namespace Options

/-- The parameter for a field, named apart from those taken. A mark that the field is not null is
copied, and the name of the property is attached. -/
def fieldParam (options : Options) (taken : List String) (f : FieldDescriptor) :
    Except GenerateError Param :=
  if !isIdentifier f.name then .error (.unsupported (.fieldName f.name))
  else if f.type.name = "" then .error (.unsupported (.fieldType f.name))
  else
    let property := options.naming.propertyOfField f.name
    let name := uniquify (options.naming.parameterOfProperty property) taken
    let copied := f.notNullMark?.toList.map fun a => { a with span := Span.none }
    let mark := Annotation.withLiteral options.propertyMark property
    .ok { Param.ofType name f.type with modifiers := ⟨[], copied ++ [mark]⟩ }

/-- A parameter put last, but in front of one that takes a variable number of arguments. -/
def addParam (params : List Param) (p : Param) : List Param :=
  match params.getLast? with
  | some last => if last.varargs then params.dropLast ++ [p, last] else params ++ [p]
  | none => [p]

/-- A parameter for each field added in turn: all parameters, and those of the fields. -/
def addFieldParams (options : Options) (params : List Param) :
    List FieldDescriptor → Except GenerateError (List Param × List Param)
  | [] => .ok (params, [])
  | f :: fs => do
      let p ← options.fieldParam (params.map (·.name)) f
      let (all, added) ← options.addFieldParams (addParam params p) fs
      return (all, p :: added)

/-- The body of the constructor, read back from its text. -/
def readBody (options : Options) (className text : String) :
    Except GenerateError (Option Block) :=
  match parseMember text className options.target with
  | .ok (.constructor stub) => .ok stub.body
  | .ok _ => .error (.unsupported (.body className))
  | .error e => .error (.parse e)

/-- The parameters taken over from a base constructor, and whether it is called at all: that of an
enum is not. -/
def baseParams (c : ClassDescriptor) (base : Option BaseConstructor) :
    Except GenerateError (List Param × List TypeParam) :=
  match base with
  | none => .ok ([], [])
  | some base =>
      match c.superclass with
      | none => .error (.invalidTarget (.noSuperclass c.name))
      | some superclass =>
          if superclass.isEnum then .ok ([], [])
          else base.namedParams.map fun params => (params, base.typeParams)

/-- One constructor. The base constructor is the subclass's view of it. -/
def prototype (options : Options) (c : ClassDescriptor) (base : Option BaseConstructor)
    (fields : List FieldDescriptor) : Except GenerateError MethodDecl := do
  let (inherited, typeParams) ← baseParams c base
  let (params, fieldParams) ← options.addFieldParams inherited fields
  let target := options.target
  let opened := BodyText.empty.start target c.name []
  let called := opened.superCall target inherited
  let assigned := called.assignFields target fields fieldParams (params.map (·.name))
  let body ← options.readBody c.name assigned.finish.text
  let marked := Modifiers.empty.annotate (.marker options.creatorMark)
  let visibility := options.visibility.resolve c.kind c.visibility
  return MethodDecl.normalize {
    modifiers := marked.withVisibility visibility
    typeParams := typeParams
    returnType := none
    name := c.name
    params := params
    throws := (base.map (·.throws)).getD []
    body := body
    doc := if options.copyDoc then base.bind (·.doc) else none
    span := Span.none }

/-- Nothing, if the class has a constructor of every signature already. -/
def withoutExisting (c : ClassDescriptor) (prototypes : List MethodDecl) : List MethodDecl :=
  if prototypes.all (c.hasConstructor ·.signature) then [] else prototypes

/-- A constructor for each selected base constructor, or one when none is selected. -/
def generate (options : Options) (c : ClassDescriptor) (selection : List Candidate) :
    Except GenerateError (List MethodDecl) := do
  if !isIdentifier c.name then throw (.unsupported (.className c.name))
  let fields := selection.filterMap Candidate.field?
  let prototypes ← match selection.filterMap Candidate.base? with
    | [] => do
        let single ← options.prototype c none fields
        pure [single]
    | bases =>
        match c.superclass with
        | none => throw (.invalidTarget (.nothingToDelegateTo c.name))
        | some superclass =>
            let view := Substitution.ofSuperclass superclass
            bases.mapM fun base => options.prototype c (some (base.substitute view)) fields
  return withoutExisting c prototypes

end Options

end CreatorSynth
