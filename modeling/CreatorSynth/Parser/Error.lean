import CreatorSynth.Token

/-! What can be wrong with a source, and where. -/
namespace CreatorSynth

/-- What a parser was looking for. -/
inductive Expected
  | symbol (s : Symbol)
  | keyword (word : Keyword)
  | identifier
  | typeDeclaration
  | endOfMember
  deriving DecidableEq, Repr

def Expected.message : Expected → String
  | symbol s => "'" ++ s.text ++ "'"
  | keyword word => "'" ++ word.text ++ "'"
  | identifier => "identifier"
  | typeDeclaration => "type declaration"
  | endOfMember => "end of member"

/-- How an error names the token it stands at. -/
def Token.describe : Option Token → String
  | none => "end of file"
  | some (.name text) => "identifier '" ++ text ++ "'"
  | some (.string text) => "string " ++ text
  | some (.number text) => "number " ++ text
  | some (.doc _) => "'doc comment'"
  | some t => "'" ++ t.text ++ "'"

/-- Causes of a failed parse. A `fault` is a step that cannot be carried out: a cut of the source
that is not between characters, or a repetition that outlasts its bound. -/
inductive ParseError
  | unexpected (pos : Nat) (expected : Expected) (found : Option Token)
  | unexpectedEnd (pos : Nat)
  | notOneMember
  | unrecognized (pos : Nat)
  | fault
  deriving DecidableEq, Repr

/-- The byte offset an error points at. -/
def ParseError.pos : ParseError → Nat
  | unexpected pos _ _ | unexpectedEnd pos | unrecognized pos => pos
  | notOneMember | fault => 0

/-- The error without its position. -/
def ParseError.label : ParseError → String
  | unexpected _ expected found => "expected " ++ expected.message ++ ", found " ++ Token.describe found
  | unexpectedEnd _ => "file ends here"
  | notOneMember => "Expected exactly one member"
  | unrecognized _ => "unrecognized character"
  | fault => "fault"

def ParseError.message : ParseError → String
  | e@(unexpected pos _ _) => s!"Unexpected token at {pos}: " ++ e.label
  | unexpectedEnd pos => s!"Unexpected end of file at {pos}"
  | e@notOneMember => s!"Invalid syntax at {e.pos}: " ++ e.label
  | unrecognized pos => s!"Lexer error at {pos}"
  | e@fault => e.label

end CreatorSynth
