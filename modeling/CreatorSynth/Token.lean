/-! Tokens of a Java or Groovy source. Modifiers, primitive types and the words of statements are
plain names here: only the words that shape a declaration are keywords. -/
namespace CreatorSynth

inductive Keyword
  | packageWord | importWord | classWord | interfaceWord | enumWord | recordWord | extendsWord
  | implementsWord | throwsWord | thisWord | superWord
  deriving DecidableEq, Repr

def Keyword.text : Keyword → String
  | packageWord => "package"
  | importWord => "import"
  | classWord => "class"
  | interfaceWord => "interface"
  | enumWord => "enum"
  | recordWord => "record"
  | extendsWord => "extends"
  | implementsWord => "implements"
  | throwsWord => "throws"
  | thisWord => "this"
  | superWord => "super"

def Keyword.all : List Keyword :=
  [packageWord, importWord, classWord, interfaceWord, enumWord, recordWord, extendsWord,
    implementsWord, throwsWord, thisWord, superWord]

def Keyword.ofText? (text : String) : Option Keyword :=
  Keyword.all.find? (·.text == text)

inductive Symbol
  | lbrace | rbrace | lparen | rparen | lbracket | rbracket | langle | rangle
  | semicolon | comma | ellipsis | dot | equals | atSign | question | colon | ampersand
  deriving DecidableEq, Repr

def Symbol.text : Symbol → String
  | lbrace => "\x7b"
  | rbrace => "\x7d"
  | lparen => "("
  | rparen => ")"
  | lbracket => "["
  | rbracket => "]"
  | langle => "<"
  | rangle => ">"
  | semicolon => ";"
  | comma => ","
  | ellipsis => "..."
  | dot => "."
  | equals => "="
  | atSign => "@"
  | question => "?"
  | colon => ":"
  | ampersand => "&"

/-- The symbols of one character. -/
def Symbol.ofChar? : Char → Option Symbol
  | '{' => some lbrace
  | '}' => some rbrace
  | '(' => some lparen
  | ')' => some rparen
  | '[' => some lbracket
  | ']' => some rbracket
  | '<' => some langle
  | '>' => some rangle
  | ';' => some semicolon
  | ',' => some comma
  | '.' => some dot
  | '=' => some equals
  | '@' => some atSign
  | '?' => some question
  | ':' => some colon
  | '&' => some ampersand
  | _ => none

/-- The symbol opens a bracket of any of the three kinds; angles are no brackets. -/
def Symbol.isOpen : Symbol → Bool
  | lparen | lbracket | lbrace => true
  | _ => false

def Symbol.isClose : Symbol → Bool
  | rparen | rbracket | rbrace => true
  | _ => false

/-- A token with its text, where the kind alone does not give it. -/
inductive Token
  | doc (text : String)
  | keyword (word : Keyword)
  | name (text : String)
  | string (text : String)
  | character (text : String)
  | number (text : String)
  | symbol (s : Symbol)
  | operator (c : Char)
  deriving DecidableEq, Repr

/-- The text of the token in a source. -/
def Token.text : Token → String
  | doc text | name text | string text | character text | number text => text
  | keyword word => word.text
  | symbol s => s.text
  | operator c => String.ofList [c]

def Token.isDoc : Token → Bool
  | doc _ => true
  | _ => false

/-- A token and the bytes of the source it covers. -/
structure Located where
  token : Token
  start : Nat
  stop : Nat
  deriving DecidableEq, Repr

end CreatorSynth
