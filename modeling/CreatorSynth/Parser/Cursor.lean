import CreatorSynth.Decl.Unit
import CreatorSynth.Dialect
import CreatorSynth.Text.Blank
import CreatorSynth.Token.Lexer

/-! The state of a parse and its basic steps. A parser reads located tokens from the front of a
list; documentation comments are kept apart from them and looked up by position. -/
namespace CreatorSynth
open Text

/-- What a parse reads from and does not change. -/
structure Source where
  text : List Char
  dialect : Dialect
  docs : List Located
  /-- Where the last token ends. -/
  stop : Nat

structure Cursor where
  rest : List Located
  /-- Where the token consumed last ends. -/
  lastStop : Nat
  /-- Documentation that begins before this offset belongs to an earlier declaration. -/
  docFloor : Nat
  /-- The classes read to their end so far. -/
  classes : List ClassDecl

abbrev Parser := ReaderT Source (StateT Cursor (Except ParseError))

namespace Parser

/-- The next tokens, at most `n`. -/
def upcoming (n : Nat) : Parser (List Token) := do
  return ((← get).rest.take n).map (·.token)

def peek : Parser (Option Token) := do
  return (← get).rest.head?.map (·.token)

/-- Where the next token begins, or the last one ends when there is none. -/
def nextStart : Parser Nat := do
  match (← get).rest with
  | t :: _ => return t.start
  | [] => return (← read).stop

def atEnd : Parser Bool := do
  return (← get).rest.isEmpty

/-- Goes on behind a token with the tokens that follow it. -/
def moveTo (last : Nat) (rest : List Located) : Parser Unit :=
  modify fun c => { c with rest := rest, lastStop := last }

def advance : Parser Unit := do
  match (← get).rest with
  | t :: rest => moveTo t.stop rest
  | [] => return

/-- The span from an offset through the token consumed last. -/
def spanFrom (start : Nat) : Parser Span := do
  return ⟨start, max (← get).lastStop start⟩

/-- The error of finding something else here, or the end. -/
def mismatch (expected : Expected) : Parser ParseError := do
  match (← get).rest with
  | t :: _ => return .unexpected t.start expected (some t.token)
  | [] => return .unexpectedEnd (← read).stop

def sees (s : Symbol) : Parser Bool := do
  return (← peek) == some (.symbol s)

/-- Consumes the token if it comes next. -/
def acceptToken (t : Token) : Parser Bool := do
  if (← peek) == some t then
    advance
    return true
  return false

def accept (s : Symbol) : Parser Bool :=
  acceptToken (.symbol s)

def acceptKeyword (word : Keyword) : Parser Bool :=
  acceptToken (.keyword word)

/-- Consumes a name that is a keyword in this place only. -/
def acceptWord (word : String) : Parser Bool :=
  acceptToken (.name word)

def expect (s : Symbol) : Parser Unit := do
  unless ← accept s do throw (← mismatch (.symbol s))

def expectKeyword (word : Keyword) : Parser Unit := do
  unless ← acceptKeyword word do throw (← mismatch (.keyword word))

/-- A name. The word `record` is one too: it is a keyword before the name of a record only. -/
def identifier : Parser String := do
  match ← peek with
  | some (.name text) =>
      advance
      return text
  | some (.keyword .recordWord) =>
      advance
      return Keyword.recordWord.text
  | _ => throw (← mismatch .identifier)

/-- The source from one offset to another, without blanks at its ends. -/
def cut (start stop : Nat) : Parser String := do
  match slice? (← read).text start (max stop start) with
  | some cs => return String.ofList (trim cs)
  | none => throw .fault

/-- Repeats a step until it answers nothing, at most `bound` times. -/
def repeatWithin {α : Type} (step : Parser (Option α)) : (bound : Nat) → Parser (List α)
  | 0 => throw .fault
  | bound + 1 => do
      match ← step with
      | none => return []
      | some a => return a :: (← repeatWithin step bound)

/-- Repeats a step until it answers nothing. Each answer has to consume a token. -/
def many {α : Type} (step : Parser (Option α)) : Parser (List α) := do
  repeatWithin step ((← get).rest.length + 1)

/-- One item or more with a symbol between them. -/
def separated {α : Type} (separator : Symbol) (item : Parser α) : Parser (List α) := do
  let first ← item
  let others ← many do
    if ← accept separator then return some (← item)
    return none
  return first :: others

/-- There is a token left. -/
def expectMore : Parser Unit := do
  if ← atEnd then throw (.unexpectedEnd (← nextStart))

/-- Later documentation only from here on. -/
def raiseDocFloor (offset : Nat) : Parser Unit :=
  modify fun c => { c with docFloor := offset }

/-- Documentation read so far belongs to what has been read. -/
def closeDocs : Parser Unit := do
  raiseDocFloor (← get).lastStop

/-- The last documentation comment in front of an offset that is not taken yet. -/
def docBefore (offset : Nat) : Parser (Option String) := do
  let floor := (← get).docFloor
  let fits (d : Located) : Bool := decide (d.stop ≤ offset) && decide (floor ≤ d.start)
  return ((← read).docs.reverse.find? fits).map (·.token.text)

/-- The end of a declaration or a statement, which Groovy does not ask for. -/
def endDeclaration : Parser Unit := do
  match (← read).dialect with
  | .java => expect .semicolon
  | .groovy => let _ ← accept .semicolon

/-- Runs a parser from the first token of a text. -/
def run {α : Type} (p : Parser α) (text : String) (dialect : Dialect) :
    Except ParseError (α × Cursor) := do
  let located ← tokenize text
  let tokens := located.filter (!·.token.isDoc)
  let stop := (tokens.getLast?.map (·.stop)).getD 0
  let source : Source := ⟨text.toList, dialect, located.filter (·.token.isDoc), stop⟩
  (ReaderT.run p source).run ⟨tokens, 0, 0, []⟩

end Parser

end CreatorSynth
