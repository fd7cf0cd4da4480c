import CreatorSynth.Parser.Methods

/-! Reading classes, their members and whole sources. A class is put behind those read before it
when its closing brace is reached. -/
namespace CreatorSynth.Parser

/-- The body of an enum constant is passed over. -/
def skipConstantBody : Parser Unit := do
  if ← sees .lbrace then
    let _ ← group .lbrace .rbrace

def enumConstant : Parser Member := do
  let start ← nextStart
  let _ ← modifiers
  let name ← identifier
  let args ← argumentText?
  skipConstantBody
  return .constant ⟨name, args, ← spanFrom start⟩

/-- The end of the constants behind the last one. -/
def endConstants : Parser Unit := do
  unless ← sees .rbrace do endDeclaration

/-- The constants of an enum, at most `bound` of them, and the end of their list. -/
def enumConstantsWithin : (bound : Nat) → Parser (List Member)
  | 0 => throw .fault
  | bound + 1 => do
      if ← accept .semicolon then return []
      if ← sees .rbrace then return []
      let constant ← enumConstant
      if ← accept .comma then return constant :: (← enumConstantsWithin bound)
      endConstants
      return [constant]

def enumConstants : Parser (List Member) := do
  let found ← enumConstantsWithin ((← get).rest.length + 1)
  closeDocs
  return found

/-- A class begins here, behind its modifiers. -/
def beginsClass : List Token → Bool
  | .keyword .classWord :: _ | .keyword .interfaceWord :: _ | .keyword .enumWord :: _ => true
  | .symbol .atSign :: .keyword .interfaceWord :: _ => true
  | .keyword .recordWord :: .name _ :: _ => true
  | _ => false

/-- The words that say what kind of class it is. -/
def classKind : Parser ClassKind := do
  match ← peek with
  | some (.keyword .interfaceWord) => advance; return .interface
  | some (.keyword .enumWord) => advance; return .enum
  | some (.keyword .recordWord) => advance; return .record
  | some (.symbol .atSign) => advance; expectKeyword .interfaceWord; return .annotationType
  | _ => expectKeyword .classWord; return .ordinary

/-- What a class extends: a superclass, or the interfaces of an interface. -/
def extendsClause (kind : ClassKind) : Parser (Option TypeRef × List TypeRef) := do
  if ← acceptKeyword .extendsWord then
    if kind = .interface then return (none, ← separated .comma typeRef)
    return (some (← typeRef), [])
  return (none, [])

def implementsClause : Parser (List TypeRef) := do
  if ← acceptKeyword .implementsWord then separated .comma typeRef else return []

/-- The permitted subclasses are passed over. -/
def skipPermits : Parser Unit := do
  if ← acceptWord "permits" then
    let _ ← separated .comma typeRef

/-- The superclass and the interfaces. -/
def supertypes (kind : ClassKind) : Parser (Option TypeRef × List TypeRef) := do
  let extended ← extendsClause kind
  let implemented ← implementsClause
  skipPermits
  return (extended.1, extended.2 ++ implemented)

/-- Puts a class behind those read to their end and returns its place. -/
def addClass (c : ClassDecl) : Parser ClassId := do
  let id := (← get).classes.length
  modify fun cursor => { cursor with classes := cursor.classes ++ [c] }
  return id

/-- A class up to its body. -/
structure ClassHead where
  kind : ClassKind
  name : String
  typeParams : List TypeParam
  recordComponents : List Param
  supertypes : Option TypeRef × List TypeRef
  deriving DecidableEq, Repr

def recordComponents (kind : ClassKind) : Parser (List Param) :=
  if kind = .record then params else return []

def classHead : Parser ClassHead := do
  let kind ← classKind
  let name ← identifier
  let typeParams ← typeParams
  let recordComponents ← recordComponents kind
  return { kind, name, typeParams, recordComponents, supertypes := ← supertypes kind }

/-- The constants that begin the body of an enum. -/
def leadingConstants (kind : ClassKind) : Parser (List Member) :=
  if kind = .enum then enumConstants else return []

/-- The next member of a class, unless its body ends here. -/
def classStep (member : Parser (List Member)) : Parser (Option (List Member)) := do
  if ← sees .rbrace then return none
  expectMore
  return some (← member)

/-- What stands in the braces of a class, given the parser of its members. -/
def classBody (kind : ClassKind) (member : Parser (List Member)) : Parser (List Member) := do
  let constants ← leadingConstants kind
  let others ← many (classStep member)
  return constants ++ others.flatten

/-- The body of a class with its braces and where it stands. -/
def bracedBody (kind : ClassKind) (member : Parser (List Member)) :
    Parser (List Member × Span) := do
  let start ← nextStart
  expect .lbrace
  raiseDocFloor start
  let members ← classBody kind member
  expect .rbrace
  return (members, ← spanFrom start)

/-- A class behind its modifiers, given the parser of the members of a class by its name. -/
def classOver (member : String → Parser (List Member)) (modifiers : Modifiers) (start : Nat)
    (doc : Option String) : Parser ClassId := do
  let head ← classHead
  let body ← bracedBody head.kind (member head.name)
  closeDocs
  addClass {
    kind := head.kind, name := head.name, typeParams := head.typeParams
    recordComponents := head.recordComponents
    extends? := head.supertypes.1, implements := head.supertypes.2
    modifiers, doc
    members := body.1, bodySpan := body.2
    span := ← spanFrom start }

/-- A constructor without a list of parameters. -/
def compactConstructor (modifiers : Modifiers) (typeParams : List TypeParam) (start : Nat)
    (doc : Option String) : Parser Member := do
  let name ← identifier
  let body ← block
  return .constructor {
    modifiers, typeParams, name, doc, returnType := none, params := [], throws := []
    body := some body
    span := ← spanFrom start }

/-- A method or the fields of a declaration from the type on. -/
def methodOrFields (modifiers : Modifiers) (typeParams : List TypeParam) (start : Nat)
    (doc : Option String) : Parser (List Member) := do
  let type ← typeRef
  let name ← identifier
  if ← sees .lparen then
    return [.method (← methodRest modifiers typeParams (some type) name start doc)]
  fieldRest modifiers type name start doc

/-- A constructor, method or field behind its modifiers. A name followed by a parenthesis is a
constructor if it is that of the class, and so is one followed by a body. -/
def typedMember (className : String) (modifiers : Modifiers) (start : Nat) (doc : Option String) :
    Parser (List Member) := do
  let typeParams ← typeParams
  let next ← upcoming 2
  if next = [.name className, .symbol .lbrace] then
    return [← compactConstructor modifiers typeParams start doc]
  if next = [.name className, .symbol .lparen] then
    let name ← identifier
    return [.constructor (← methodRest modifiers typeParams none name start doc)]
  methodOrFields modifiers typeParams start doc

/-- The word in front of a static block. -/
def staticWord : Parser Bool := do
  if (← upcoming 2) = [.name "static", .symbol .lbrace] then
    advance
    return true
  return false

/-- A block of statements run when the class or an object is made, if one begins here. -/
def initializerBlock? (start : Nat) : Parser (Option Member) := do
  let isStatic ← staticWord
  if ← sees .lbrace then
    let _ ← group .lbrace .rbrace
    closeDocs
    return some (.initializer isStatic (← spanFrom start))
  return none

/-- A nested class, a constructor, a method or a field, with its modifiers. -/
def declaredMember (nested : Modifiers → Nat → Option String → Parser ClassId)
    (className : String) (start : Nat) : Parser (List Member) := do
  let doc ← docBefore start
  let modifiers ← modifiers
  if beginsClass (← upcoming 2) then
    let id ← nested modifiers start doc
    return [.nested id (← spanFrom start)]
  let members ← typedMember className modifiers start doc
  closeDocs
  return members

/-- One declaration in the body of a class, given the parser of nested classes. A field declaration
gives several members, a semicolon none. -/
def memberOver (nested : Modifiers → Nat → Option String → Parser ClassId) (className : String) :
    Parser (List Member) := do
  let start ← nextStart
  if ← accept .semicolon then return []
  match ← initializerBlock? start with
  | some block => return [block]
  | none => declaredMember nested className start

/-- A class with at most so many levels of nesting, itself included. -/
def classWithin : (depth : Nat) → Modifiers → Nat → Option String → Parser ClassId
  | 0 => fun _ _ _ => throw .fault
  | depth + 1 => classOver (memberOver (classWithin depth))

/-- A class behind its modifiers. A level of nesting takes a token, so their number bounds the
levels. -/
def classDecl (modifiers : Modifiers) (start : Nat) (doc : Option String) : Parser ClassId := do
  classWithin ((← get).rest.length + 1) modifiers start doc

/-- One declaration in the body of a class of that name. -/
def member (className : String) : Parser (List Member) :=
  memberOver classDecl className

/-- What stands at the top of a source. -/
inductive Item
  | blank
  | package (name : String) (stop : Nat)
  | imported (decl : Import) (stop : Nat)
  | declared (id : ClassId)
  deriving DecidableEq, Repr

/-- Adds an item to what stands before it. -/
def Item.addTo (u : CompilationUnit) : Item → CompilationUnit
  | blank => u
  | package name stop => { u with package := some name, headerEnd := stop }
  | imported decl stop => { u with imports := u.imports ++ [decl], headerEnd := stop }
  | declared id => { u with topLevel := u.topLevel ++ [id] }

/-- As below, in at most `bound` steps. -/
def importTailWithin : (bound : Nat) → Parser (List String × Bool)
  | 0 => throw .fault
  | bound + 1 => do
      if ← accept .dot then
        if ← acceptToken (.operator '*') then return ([], true)
        let segment ← identifier
        let (segments, onDemand) ← importTailWithin bound
        return (segment :: segments, onDemand)
      return ([], false)

/-- The further segments of an import, and whether it ends with a star. A segment takes a token. -/
def importTail : Parser (List String × Bool) := do
  importTailWithin ((← get).rest.length + 1)

def importDecl (start : Nat) : Parser Import := do
  expectKeyword .importWord
  let isStatic ← acceptWord "static"
  let first ← identifier
  let (segments, onDemand) ← importTail
  endDeclaration
  return ⟨Text.joinSegments (first :: segments), isStatic, onDemand, ← spanFrom start⟩

/-- Where the token consumed last ends. -/
def lastStop : Parser Nat := do
  return (← get).lastStop

def packageItem : Parser Item := do
  expectKeyword .packageWord
  let name ← qualifiedName
  endDeclaration
  closeDocs
  return .package name (← lastStop)

def importItem (start : Nat) : Parser Item := do
  let decl ← importDecl start
  closeDocs
  return .imported decl (← lastStop)

/-- An item behind its modifiers, by the tokens that come next. -/
def itemFrom (modifiers : Modifiers) (start : Nat) (doc : Option String) (next : List Token) :
    Parser Item := do
  if next.head? = some (.keyword .packageWord) then packageItem
  else if next.head? = some (.keyword .importWord) then importItem start
  else if beginsClass next then return .declared (← classDecl modifiers start doc)
  else throw (.unexpected (← nextStart) .typeDeclaration next.head?)

/-- An item at the top of a source. Modifiers of a package or an import are dropped. -/
def item : Parser Item := do
  if ← accept .semicolon then return .blank
  let start ← nextStart
  let doc ← docBefore start
  let modifiers ← modifiers
  itemFrom modifiers start doc (← upcoming 2)

/-- The next item of a source, unless it ends here. -/
def unitStep : Parser (Option Item) := do
  if ← atEnd then return none
  return some (← item)

/-- A whole source. -/
def unit : Parser CompilationUnit := do
  let items ← many unitStep
  return { items.foldl Item.addTo CompilationUnit.empty with classes := (← get).classes }

end CreatorSynth.Parser

namespace CreatorSynth

/-- Reads a source file. -/
def parseUnit (text : String) (dialect : Dialect) : Except ParseError CompilationUnit :=
  (Parser.unit.run text dialect).map (·.1)

/-- Reads a text that declares one member of a class of that name, and nothing else. -/
def parseMember (text className : String) (dialect : Dialect) : Except ParseError Member := do
  let (members, cursor) ← (Parser.member className).run text dialect
  match cursor.rest, members with
  | t :: _, _ => throw (.unexpected t.start .endOfMember (some t.token))
  | [], [member] => return member
  | [], _ => throw .notOneMember

/-- Reads a type from the beginning of a text; what follows the type is not looked at. -/
def parseType (text : String) : Except ParseError TypeRef :=
  (Parser.typeRef.run text .java).map (·.1)

end CreatorSynth
