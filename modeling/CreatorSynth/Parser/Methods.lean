import CreatorSynth.Parser.Types

/-! Reading parameters, bodies and what follows the name of a method. -/
namespace CreatorSynth.Parser

/-- A parameter. One that stands for the receiver has no name and is dropped. -/
def param? : Parser (Option Param) := do
  let start ← nextStart
  let modifiers ← modifiers
  let type ← typeRef
  let varargs ← accept .ellipsis
  if ← acceptKeyword .thisWord then return none
  let name ← identifier
  let dims ← dimensions
  return some ⟨modifiers, type.array dims, name, varargs, ← spanFrom start⟩

/-- Parameters in parentheses. -/
def params : Parser (List Param) := do
  expect .lparen
  if ← accept .rparen then return []
  let found ← separated .comma param?
  expect .rparen
  return found.filterMap id

def throwsClause : Parser (List TypeRef) := do
  if ← acceptKeyword .throwsWord then separated .comma typeRef else return []

/-- What kind of statement the next tokens begin. A second equals sign makes a comparison. -/
inductive StatementHead
  | superCall
  | thisCall
  | assignment (qualified : Bool)
  | other
  deriving DecidableEq, Repr

def StatementHead.ofTokens : List Token → StatementHead
  | .keyword .superWord :: .symbol .lparen :: _ => .superCall
  | .keyword .thisWord :: .symbol .lparen :: _ => .thisCall
  | .keyword .thisWord :: .symbol .dot :: .name _ :: .symbol .equals :: more =>
      if more.head? = some (.symbol .equals) then .other else .assignment true
  | .name _ :: .symbol .equals :: more =>
      if more.head? = some (.symbol .equals) then .other else .assignment false
  | _ => .other

/-- The arguments of a call that is a statement, behind the word that is called. -/
def callStatement : Parser (List String) := do
  advance
  let args ← callArgs
  endDeclaration
  return args

/-- An assignment from the name of the field on. -/
def assignment (qualified : Bool) (start : Nat) : Parser Statement := do
  let field ← identifier
  expect .equals
  let value ← expression
  endDeclaration
  return .assign qualified field value (← spanFrom start)

/-- A statement whose first tokens were looked at. -/
def statementFrom (start : Nat) : StatementHead → Parser Statement
  | .superCall => do return .superCall (← callStatement) (← spanFrom start)
  | .thisCall => do return .thisCall (← callStatement) (← spanFrom start)
  | .assignment false => assignment false start
  | .assignment true => do
      advance
      advance
      assignment true start
  | .other => do return .other (← rawStatement) (← spanFrom start)

/-- A statement; a semicolon alone is none. -/
def statement : Parser (Option Statement) := do
  let start ← nextStart
  if ← accept .semicolon then return none
  return some (← statementFrom start (StatementHead.ofTokens (← upcoming 5)))

/-- The next statement of a block, unless the block ends here. -/
def blockStep : Parser (Option (Option Statement)) := do
  if ← sees .rbrace then return none
  expectMore
  return some (← statement)

/-- Statements in braces. -/
def block : Parser Block := do
  let start ← nextStart
  expect .lbrace
  let found ← many blockStep
  expect .rbrace
  return ⟨found.filterMap id, ← spanFrom start⟩

/-- The default value of an annotation element is passed over. -/
def skipDefault : Parser Unit := do
  if ← acceptWord "default" then
    let _ ← expression

/-- A body, or the end of a declaration without one. -/
def body? : Parser (Option Block) := do
  if ← sees .lbrace then return some (← block)
  skipDefault
  endDeclaration
  return none

/-- A method or constructor from its parameters on. Dimensions may stand behind the parameters. -/
def methodRest (modifiers : Modifiers) (typeParams : List TypeParam) (returnType : Option TypeRef)
    (name : String) (start : Nat) (doc : Option String) : Parser MethodDecl := do
  let params ← params
  let dims ← dimensions
  let throws ← throwsClause
  let body ← body?
  return {
    modifiers, typeParams, name, params, throws, body, doc
    returnType := returnType.map (·.array dims)
    span := ← spanFrom start }

/-- The initializer of a variable, if it has one. -/
def initializer? : Parser (Option String) := do
  if ← accept .equals then return some (← initializer)
  return none

/-- The dimensions and the initializer of a variable. -/
def declarator (name : String) : Parser (String × Nat × Option String) := do
  let dims ← dimensions
  return (name, dims, ← initializer?)

/-- A further variable of a field declaration. -/
def nextDeclarator : Parser (Option (String × Nat × Option String)) := do
  if ← accept .comma then return some (← declarator (← identifier))
  return none

/-- The variables of a field declaration from the first name on. Their spans are the same. -/
def fieldRest (modifiers : Modifiers) (type : TypeRef) (name : String) (start : Nat)
    (doc : Option String) : Parser (List Member) := do
  let first ← declarator name
  let others ← many nextDeclarator
  endDeclaration
  let span ← spanFrom start
  return (first :: others).map fun (name, dims, initializer) =>
    .field { modifiers, name, initializer, doc, span, type := type.array dims }

end CreatorSynth.Parser
