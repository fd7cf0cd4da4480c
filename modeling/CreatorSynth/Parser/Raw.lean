import CreatorSynth.Parser.Cursor
import CreatorSynth.Text.Capital

/-! Parts of a source that are passed over and kept as text: bracketed groups, the arguments of a
call, expressions, field initializers and statements. Brackets are counted without regard to their
kind, except in a group. -/
namespace CreatorSynth
open Text

/-- The number of open brackets after a token. A closing bracket without an open one does not
count. -/
def Token.nest (depth : Nat) : Token → Nat
  | .symbol s => if s.isOpen then depth + 1 else if s.isClose then depth - 1 else depth
  | _ => depth

/-- The token that closes a group with `inner` more groups open inside it, and what follows. Only
brackets of the kind of the group are counted. -/
def closeGroup (opening closing : Symbol) : (inner : Nat) → List Located →
    Option (Located × List Located)
  | _, [] => none
  | inner, t :: ts =>
      if t.token = .symbol opening then closeGroup opening closing (inner + 1) ts
      else if t.token = .symbol closing then
        match inner with
        | 0 => some (t, ts)
        | inner + 1 => closeGroup opening closing inner ts
      else closeGroup opening closing inner ts

/-- The bounds of the arguments of a call from `start` on, its closing parenthesis, and what
follows. A call without arguments counts as one with an empty argument. -/
def callArguments : (depth start : Nat) → List Located →
    Option (List (Nat × Nat) × Located × List Located)
  | _, _, [] => none
  | depth, start, t :: ts =>
      if depth = 0 ∧ t.token = .symbol .rparen then some ([(start, t.start)], t, ts)
      else if depth = 0 ∧ t.token = .symbol .comma then
        (callArguments 0 t.stop ts).map fun found => ((start, t.start) :: found.1, found.2)
      else callArguments (t.token.nest depth) start ts

namespace Source

/-- In Groovy, whether a line ends between two offsets. -/
def breaksBetween (src : Source) (stop start : Nat) : Except ParseError Bool :=
  match src.dialect with
  | .java => .ok false
  | .groovy =>
      match slice? src.text (min stop start) start with
      | some gap => .ok (gap.contains '\n')
      | none => .error .fault

/-- As above for the end of the token passed last, if one was. -/
def breaksAfter (src : Source) (passed : Option Nat) (start : Nat) : Except ParseError Bool :=
  match passed with
  | some stop => src.breaksBetween stop start
  | none => .ok false

/-- Where passing over tokens ends: the end of the last one passed, and what is left. -/
abbrev Passed := Option Nat × List Located

/-- Passes over an expression. It ends before a semicolon or a closing brace outside brackets, and
in Groovy at a line break there. -/
def passExpression (src : Source) : (depth : Nat) → (passed : Option Nat) → List Located →
    Except ParseError Passed
  | _, _, [] => .error (.unexpectedEnd src.stop)
  | depth, passed, t :: ts => do
      if depth = 0 then
        if t.token = .symbol .semicolon ∨ t.token = .symbol .rbrace then return (passed, t :: ts)
        if ← src.breaksAfter passed t.start then return (passed, t :: ts)
      passExpression src (t.token.nest depth) (some t.stop) ts

end Source

/-- An angle behind such a token opens type arguments and does not compare: the token is a name
with a capital, or a dot. -/
def Token.beforeTypeArgs : Option Token → Bool
  | some (.name text) => text.toList.head?.any isUppercase
  | some (.symbol .dot) => true
  | _ => false

/-- The number of open angles after a token. -/
def Token.nestAngles (previous : Option Token) (angles : Nat) : Token → Nat
  | .symbol .langle => if Token.beforeTypeArgs previous then angles + 1 else angles
  | .symbol .rangle => angles - 1
  | _ => angles

/-- Words that continue a statement behind its closing brace. -/
def Token.continuesBlock : Option Token → Bool
  | some (.name text) => ["else", "catch", "finally", "while"].contains text
  | _ => false

namespace Source

/-- Passes over the initializer of a field. It ends like an expression or before a comma, but
outside brackets and type arguments. -/
def passInitializer (src : Source) : (depth angles : Nat) → (previous : Option Token) →
    (passed : Option Nat) → List Located → Except ParseError Passed
  | _, _, _, _, [] => .error (.unexpectedEnd src.stop)
  | depth, angles, previous, passed, t :: ts => do
      if depth = 0 ∧ angles = 0 then
        if t.token = .symbol .comma ∨ t.token = .symbol .semicolon ∨ t.token = .symbol .rbrace then
          return (passed, t :: ts)
        if ← src.breaksAfter passed t.start then return (passed, t :: ts)
      passInitializer src (t.token.nest depth) (t.token.nestAngles previous angles) (some t.token)
        (some t.stop) ts

/-- Passes over a statement. It ends behind a semicolon, before a closing brace, or behind the
closing brace of its last block; in Groovy also at a line break. The first offset is where its
text ends, the second where the last token passed does. -/
def passStatement (src : Source) : (depth : Nat) → (passed : Option Nat) → List Located →
    Except ParseError (Option Nat × Passed)
  | _, _, [] => .error (.unexpectedEnd src.stop)
  | depth, passed, t :: ts => do
      if depth = 0 then
        if t.token = .symbol .semicolon then return (passed, some t.stop, ts)
        if t.token = .symbol .rbrace then return (passed, passed, t :: ts)
        if ← src.breaksAfter passed t.start then return (passed, passed, t :: ts)
      let depth := t.token.nest depth
      if depth = 0 ∧ t.token = .symbol .rbrace ∧
          !Token.continuesBlock (ts.head?.map (·.token)) then
        return (some t.stop, some t.stop, ts)
      passStatement src depth (some t.stop) ts

end Source

namespace Parser

/-- Goes on behind what was passed over. -/
def resume (passed : Source.Passed) : Parser Unit := do
  let last ← pure (passed.1.getD (← get).lastStop)
  moveTo last passed.2

/-- A bracketed group, opened by the next token. -/
def group (opening closing : Symbol) : Parser Span := do
  let start ← nextStart
  expect opening
  match closeGroup opening closing 0 (← get).rest with
  | none => throw (.unexpectedEnd (← read).stop)
  | some (last, rest) =>
      moveTo last.stop rest
      spanFrom start

/-- The text between the brackets of a group. -/
def groupText (opening closing : Symbol) : Parser String := do
  let span ← group opening closing
  cut (span.start + 1) (span.stop - 1)

/-- The text in parentheses, if one opens here. -/
def argumentText? : Parser (Option String) := do
  if ← sees .lparen then return some (← groupText .lparen .rparen)
  return none

/-- The arguments of a call as texts. -/
def callArgs : Parser (List String) := do
  let start ← nextStart
  expect .lparen
  match callArguments 0 (start + 1) (← get).rest with
  | none => throw (.unexpectedEnd (← read).stop)
  | some (bounds, last, rest) =>
      let args ← bounds.mapM fun bound => cut bound.1 bound.2
      moveTo last.stop rest
      return if args = [""] then [] else args

/-- The text of an expression. Its terminator is left. -/
def expression : Parser String := do
  let start ← nextStart
  let passed ← liftM ((← read).passExpression 0 none (← get).rest)
  resume passed
  cut start (passed.1.getD start)

/-- The text of the initializer of a field. -/
def initializer : Parser String := do
  let start ← nextStart
  let passed ← liftM ((← read).passInitializer 0 0 none none (← get).rest)
  resume passed
  cut start (passed.1.getD start)

/-- The text of any statement, without its terminator. -/
def rawStatement : Parser String := do
  let start ← nextStart
  let (stop, passed) ← liftM ((← read).passStatement 0 none (← get).rest)
  resume passed
  cut start (stop.getD start)

end Parser

end CreatorSynth
