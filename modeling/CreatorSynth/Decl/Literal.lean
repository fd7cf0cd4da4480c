import CreatorSynth.Text.Affix
import CreatorSynth.Text.Blank

/-! String literals of one line, and annotation arguments that hold nothing else. -/
namespace CreatorSynth.Literal
open Text

/-- A character as it is written inside a literal. -/
def escape : Char → List Char
  | '"' => ['\\', '"']
  | '\\' => ['\\', '\\']
  | '\n' => ['\\', 'n']
  | '\t' => ['\\', 't']
  | '\r' => ['\\', 'r']
  | c => [c]

/-- The literal that stands for a text. -/
def quote (value : String) : String :=
  String.ofList ('"' :: value.toList.flatMap escape ++ ['"'])

/-- The character meant by a backslash and the character after it. -/
def escaped : Char → Char
  | 'n' => '\n'
  | 't' => '\t'
  | 'r' => '\r'
  | c => c

/-- Escapes resolved. A backslash at the end escapes nothing. -/
def unescape : List Char → Option (List Char)
  | [] => some []
  | ['\\'] => none
  | '\\' :: c :: rest => (unescape rest).map (escaped c :: ·)
  | c :: rest => (unescape rest).map (c :: ·)

/-- A text that begins with one quote and ends with another. Quotes in between are not looked
for. -/
def unquote? (text : String) : Option String :=
  match text.toList with
  | '"' :: rest =>
      if rest.getLast? = some '"' then (unescape rest.dropLast).map String.ofList else none
  | _ => none

/-- The text of the only argument of an annotation, which may be named `value`. -/
def ofArguments? (args : String) : Option String :=
  let cs := trim args.toList
  let literal? := match dropStart? "value".toList cs with
    | some rest => (dropStart? ['='] (trimStart rest)).map trimStart
    | none => some cs
  literal?.bind fun literal => unquote? (String.ofList literal)

end CreatorSynth.Literal
