import CreatorSynth.Parser.Raw

/-! Reading names, annotations, modifiers, types and type parameters. -/
namespace CreatorSynth.Parser

/-- A dot and the name behind it. Any other dot is left. -/
def dotName : Parser (Option String) := do
  match ← upcoming 2 with
  | [.symbol .dot, .name text] =>
      advance
      advance
      return some text
  | _ => return none

def qualifiedName : Parser String := do
  let first ← identifier
  return Text.joinSegments (first :: (← many dotName))

def annotation : Parser Annotation := do
  let start ← nextStart
  expect .atSign
  let name ← qualifiedName
  let args ← argumentText?
  return ⟨name, args, ← spanFrom start⟩

/-- A modifier by the tokens that come next. -/
def modifierFrom : List Token → Parser (Option (String ⊕ Annotation))
  | .symbol .atSign :: .keyword .interfaceWord :: _ => return none
  | .symbol .atSign :: _ => return some (.inr (← annotation))
  | .name word :: _ =>
      if isModifierKeyword word then do
        advance
        return some (.inl word)
      else return none
  | _ => return none

/-- A modifier word or an annotation. The head of an annotation type is neither. -/
def modifier : Parser (Option (String ⊕ Annotation)) := do
  modifierFrom (← upcoming 2)

/-- Modifier words and annotations in any order. -/
def modifiers : Parser Modifiers := do
  let found ← many modifier
  return ⟨found.filterMap Sum.getLeft?, found.filterMap Sum.getRight?⟩

/-- The brackets of one array dimension. -/
def dimension : Parser (Option Unit) := do
  if (← upcoming 2) = [.symbol .lbracket, .symbol .rbracket] then
    advance
    advance
    return some ()
  return none

/-- The number of array dimensions. -/
def dimensions : Parser Nat := do
  return (← many dimension).length

/-- A type argument, given the parser of a type inside it. -/
def typeArg (type : Parser TypeRef) : Parser TypeArg := do
  if ← accept .question then
    if ← acceptKeyword .extendsWord then return .extending (← type)
    if ← acceptKeyword .superWord then return .superOf (← type)
    return .any
  return .type (← type)

/-- Type arguments in angles, if they come next. -/
def typeArgs? (type : Parser TypeRef) : Parser (Option (List TypeArg)) := do
  if ← accept .langle then
    if ← accept .rangle then return some []
    let args ← separated .comma (typeArg type)
    expect .rangle
    return some args
  return none

/-- A further segment of a type name and its arguments. -/
def typeSegment (type : Parser TypeRef) : Parser (Option (String × Option (List TypeArg))) := do
  match ← dotName with
  | some name => return some (name, ← typeArgs? type)
  | none => return none

/-- A type, given the parser of a type inside it. Annotations in front of it are dropped, and of
several lists of arguments the last counts. -/
def typeRefOver (type : Parser TypeRef) : Parser TypeRef := do
  let _ ← many do
    if ← sees .atSign then return some (← annotation)
    return none
  let first ← identifier
  let args ← typeArgs? type
  let others ← many (typeSegment type)
  let dims ← dimensions
  let lists := args :: others.map (·.2)
  return ⟨Text.joinSegments (first :: others.map (·.1)), (lists.filterMap id).getLast?.getD [], dims⟩

/-- A type with at most so many levels of arguments, itself included. -/
def typeRefWithin : (depth : Nat) → Parser TypeRef
  | 0 => throw .fault
  | depth + 1 => typeRefOver (typeRefWithin depth)

/-- A type. A level of arguments takes a token, so their number bounds the levels. -/
def typeRef : Parser TypeRef := do
  typeRefWithin ((← get).rest.length + 1)

/-- The bounds of a type variable. -/
def bounds : Parser (List TypeRef) := do
  if ← acceptKeyword .extendsWord then separated .ampersand typeRef else return []

def typeParam : Parser TypeParam := do
  let _ ← modifiers
  let name ← identifier
  return ⟨name, ← bounds⟩

/-- Type parameters in angles, if they come next. -/
def typeParams : Parser (List TypeParam) := do
  if ← accept .langle then
    let params ← separated .comma typeParam
    expect .rangle
    return params
  return []

end CreatorSynth.Parser
