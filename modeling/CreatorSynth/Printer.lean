import CreatorSynth.Decl.Basic
import CreatorSynth.Dialect
import CreatorSynth.Text.Blank

/-! Declarations as text, laid out from scratch: annotations of a declaration on lines of their
own, those of a parameter inline, one statement a line. -/
namespace CreatorSynth
open Text

/-- The lines of a documentation comment, aligned below its first star. -/
def docText (doc : String) : String :=
  let printed := (lines doc.toList).mapIdx fun i line =>
    let line := trim line
    (if i > 0 && line.head? == some '*' then " " else "") ++ String.ofList line ++ "\n"
  String.join printed

def Annotation.text (a : Annotation) : String :=
  "@" ++ a.name ++ match a.args with
    | some args => "(" ++ args ++ ")"
    | none => ""

def TypeParam.text (p : TypeParam) : String :=
  p.name ++
    if p.bounds.isEmpty then "" else " extends " ++ " & ".intercalate (p.bounds.map TypeRef.text)

def Param.text (p : Param) : String :=
  String.join (p.modifiers.annotations.map fun a => a.text ++ " ") ++
    String.join (p.modifiers.keywords.map (· ++ " ")) ++
    p.type.text ++ (if p.varargs then "..." else "") ++ " " ++ p.name

/-- A statement. One that ends with a block needs no terminator. -/
def Statement.text (dialect : Dialect) : Statement → String
  | superCall args _ => "super(" ++ ", ".intercalate args ++ ")" ++ dialect.terminator
  | thisCall args _ => "this(" ++ ", ".intercalate args ++ ")" ++ dialect.terminator
  | assign qualified field value _ =>
      (if qualified then "this." else "") ++ field ++ " = " ++ value ++ dialect.terminator
  | other text _ => if text.toList.getLast? = some '}' then text else text ++ dialect.terminator

/-- Statements in braces, each behind the indent. -/
def Block.text (dialect : Dialect) (indent : String) (b : Block) : String :=
  " \x7b\n" ++ String.join (b.statements.map fun s => indent ++ s.text dialect ++ "\n") ++ "\x7d"

/-- A method or a constructor, without a line end behind it. What is public needs no word for it in
Groovy. -/
def MethodDecl.textIndented (dialect : Dialect) (indent : String) (m : MethodDecl) : String :=
  let keywords := m.modifiers.keywords.filter fun word => !(dialect == .groovy && word == "public")
  (m.doc.map docText).getD "" ++
    String.join (m.modifiers.annotations.map fun a => a.text ++ "\n") ++
    String.join (keywords.map (· ++ " ")) ++
    (if m.typeParams.isEmpty then ""
      else "<" ++ ", ".intercalate (m.typeParams.map TypeParam.text) ++ "> ") ++
    ((m.returnType.map fun t => t.text ++ " ").getD "") ++
    m.name ++ "(" ++ ", ".intercalate (m.params.map Param.text) ++ ")" ++
    (if m.throws.isEmpty then ""
      else " throws " ++ ", ".intercalate (m.throws.map TypeRef.text)) ++
    match m.body with
    | some body => body.text dialect indent
    | none => dialect.terminator

/-- One level of indentation. -/
def indentUnit : String :=
  "    "

def MethodDecl.text (dialect : Dialect) (m : MethodDecl) : String :=
  m.textIndented dialect indentUnit

end CreatorSynth
