import CreatorSynth.Naming
import CreatorSynth.Parser.Classes
import CreatorSynth.Text.Layout

/-! Changes of a source: what they ask for, and the text edits that carry them out. An edit is
computed from the source and its unit; nothing is changed here. -/
namespace CreatorSynth
open Text

inductive Mutation
  /-- A member, given as text, for a class given by path or simple name. -/
  | insertMember (className text : String)
  | addImport (path : String)
  deriving DecidableEq, Repr

/-- Why a mutation cannot be carried out. A `fault` is a cut of the source that is not between
characters. -/
inductive MutationError
  | classNotFound (className : String)
  | invalidMember (error : ParseError)
  | invalidImport (path : String)
  | importConflict (path existing : String)
  | fault
  deriving DecidableEq, Repr

def MutationError.message : MutationError → String
  | classNotFound className => "Class not found: " ++ className
  | invalidMember error => "Invalid member text: " ++ error.message
  | invalidImport path => "Invalid import path: " ++ path
  | importConflict path existing => "Import of " ++ path ++ " conflicts with " ++ existing
  | fault => "fault"

/-- A text put in place of the bytes from `start` to `stop`. -/
structure TextEdit where
  start : Nat
  stop : Nat
  text : String
  deriving DecidableEq, Repr

namespace TextEdit

def insertion (offset : Nat) (text : String) : TextEdit :=
  ⟨offset, offset, text⟩

/-- The source with the edit in it. -/
def applyTo? (e : TextEdit) (source : String) : Option String := do
  let before ← slice? source.toList 0 e.start
  let _ ← slice? source.toList e.start e.stop
  let after ← dropBytes? e.stop source.toList
  return String.ofList (before ++ e.text.toList ++ after)

end TextEdit

/-- What stands on the line of an offset in front of it. -/
def lineBefore? (source : List Char) (offset : Nat) : Option (List Char) :=
  (slice? source 0 offset).map fun before => (before.reverse.takeWhile (· != '\n')).reverse

/-- The blanks at the beginning of the line of an offset. -/
def lineIndent? (source : List Char) (offset : Nat) : Option String :=
  (lineBefore? source offset).map fun line => String.ofList (line.takeWhile isBlank)

/-- Whether the line behind the line of an offset is blank, or there is none. -/
def nextLineIsBlank (after : List Char) : Bool :=
  match splitOn '\n' after with
  | _ :: line :: _ => allBlank line
  | _ => true

/-- The semicolon that ends the constants of an enum, on a line of its own. -/
def separatorLine (separator indent : String) : String :=
  if separator = "" then "" else indent ++ separator ++ "\n"

/-- Where the list of the constants of an enum ends behind the last of them: at the semicolon that
is there already, or behind a comma. -/
def constantTail? (source : List Char) (stop limit : Nat) : Option Nat := do
  let tail ← slice? source stop limit
  let taken := tail.takeWhile fun c => isBlank c || c == ','
  let offset := stop + byteLength taken
  let after ← dropBytes? offset source
  return if after.head? = some ';' then offset else stop + byteLength (trimEnd taken)

/-- Where a new member goes: behind what, and what has to be written first. -/
structure Anchor where
  stop : Option Nat
  separator : String
  deriving DecidableEq, Repr

/-- Behind the last constructor, else the last field, else the constants of an enum, whose list may
have to be ended. -/
def ClassDecl.anchor? (c : ClassDecl) (source : List Char) (close : Nat) : Option Anchor :=
  let lastConstructor := c.constructors.getLast?.map (·.span.stop)
  let lastField := c.fields.getLast?.map (·.span.stop)
  match lastConstructor.or lastField with
  | some stop => some ⟨some stop, ""⟩
  | none =>
      if c.kind ≠ .enum then some ⟨none, ""⟩
      else match (c.members.filterMap Member.constant?).getLast? with
        | none => some ⟨none, ";"⟩
        | some constant => do
            let stop ← constantTail? source constant.span.stop close
            let after ← dropBytes? stop source
            return if after.head? = some ';' then ⟨some (stop + 1), ""⟩ else ⟨some stop, ";"⟩

/-- The indentation of the first member, if it begins a line of its own, else one level more than
that of the class. -/
def ClassDecl.memberIndent? (c : ClassDecl) (source : List Char) (classIndent : String) :
    Option String := do
  let deeper := classIndent ++ "    "
  match c.members.head? with
  | none => return deeper
  | some first =>
      let line ← lineBefore? source first.span.start
      if c.bodySpan.start < first.span.start - byteLength line then
        return String.ofList (line.takeWhile isBlank)
      return deeper

/-- The edit that puts a member into a class. A closing brace on the same line moves below it, and
a blank line stays between it and what follows. -/
def ClassDecl.insertion? (c : ClassDecl) (sourceText text : String) : Option TextEdit := do
  let source := sourceText.toList
  let opening := c.bodySpan.start
  let close := c.bodySpan.stop - 1
  let classIndent ← lineIndent? source c.span.start
  let memberIndent ← c.memberIndent? source classIndent
  let body := reindent (String.ofList (trimEnd text.toList)) memberIndent
  let anchor ← c.anchor? source close
  match anchor.stop with
  | some stop =>
      let rest ← slice? source stop close
      if !rest.contains '\n' && allBlank rest then
        return ⟨stop, close, anchor.separator ++ "\n\n" ++ body ++ "\n" ++ classIndent⟩
      let after ← dropBytes? stop source
      let trailer := if !allBlank rest && !nextLineIsBlank after then "\n" else ""
      return .insertion stop (anchor.separator ++ "\n\n" ++ body ++ trailer)
  | none =>
      let inner ← slice? source (opening + 1) close
      let first := "\n" ++ separatorLine anchor.separator memberIndent ++ body ++ "\n"
      if allBlank inner then return ⟨opening + 1, close, first ++ classIndent⟩
      return .insertion (opening + 1) first

/-- A path that names a class in a package. -/
def isImportPath (path : String) : Bool :=
  let parts := segments path
  decide (2 ≤ parts.length) && parts.all hasIdentifierShape

namespace CompilationUnit

/-- What the simple name of a class is bound to in the file, other than by an import on demand. -/
def boundTo? (u : CompilationUnit) (simple : String) : Option String :=
  match u.imports.find? (·.bound? == some simple) with
  | some found => some found.path
  | none =>
      if u.topLevel.any fun id => u.nameOf? id == some simple then some (u.qualify simple) else none

/-- The class can be named without a new import. -/
def sees (u : CompilationUnit) (path : String) : Bool :=
  let (package, _) := (splitLast? path).getD ("", path)
  u.hasImport path || u.package == some package || package == "java.lang"

/-- The edit that adds an import behind the others; none when it is not needed. -/
def importEdit (u : CompilationUnit) (path : String) (dialect : Dialect) :
    Except MutationError (Option TextEdit) :=
  if u.sees path then .ok none
  else match u.boundTo? (simpleName path) with
    | some existing => .error (.importConflict path existing)
    | none =>
        let statement := "import " ++ path ++ dialect.terminator
        .ok <| some <| match u.imports.getLast? with
          | some last => .insertion last.span.stop ("\n" ++ statement)
          | none =>
              if u.package.isSome then .insertion u.headerEnd ("\n\n" ++ statement)
              else .insertion 0 (statement ++ "\n\n")

end CompilationUnit

namespace Mutation

/-- Whether the mutation can be carried out: the class is there and the text is one member of it,
or the path names a class in a package. -/
def validate (u : CompilationUnit) (dialect : Dialect) : Mutation → Except MutationError Unit
  | insertMember className text =>
      match (u.findClass? className).bind u.nameOf? with
      | none => .error (.classNotFound className)
      | some name =>
          match parseMember text name dialect with
          | .ok _ => .ok ()
          | .error e => .error (.invalidMember e)
  | addImport path => if isImportPath path then .ok () else .error (.invalidImport path)

/-- The edit that carries out a valid mutation; none when there is nothing to change. -/
def edit (source : String) (u : CompilationUnit) (dialect : Dialect) (m : Mutation) :
    Except MutationError (Option TextEdit) := do
  m.validate u dialect
  match m with
  | insertMember className text =>
      match (u.findClass? className).bind u.class? with
      | none => throw (.classNotFound className)
      | some c =>
          match c.insertion? source text with
          | some e => return some e
          | none => throw .fault
  | addImport path => u.importEdit path dialect

end Mutation

end CreatorSynth
