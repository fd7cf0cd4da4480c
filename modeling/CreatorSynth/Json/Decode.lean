import CreatorSynth.Document.Edit
import CreatorSynth.Json.Encode
import CreatorSynth.Json.Reader

/-! What the program accepts as JSON: options and mutations. A structure is an object, in which
unknown members are passed over, or an array of its members in order; the parts of a mutation are
an object. Null stands for nothing but itself. -/
namespace CreatorSynth
namespace Json

def text? : Json → Option String
  | string text => some text
  | _ => none

def truth? : Json → Option Bool
  | bool value => some value
  | _ => none

def texts? : Json → Option (List String)
  | array items => items.mapM text?
  | _ => none

/-- One of several words, alone or as the only member of an object, which is null. -/
def oneOf? {α : Type} (words : List (String × α)) : Json → Option α
  | string word => words.lookup word
  | object [(word, null)] => words.lookup word
  | _ => none

/-- The known members of an object. None may be there twice. -/
def known? (names : List String) (fields : List (String × Json)) : Option (List (String × Json)) :=
  let known := fields.filter fun field => names.contains field.1
  if (known.map (·.1)).Nodup then some known else none

/-- The members of a structure that are there. -/
def members? (names : List String) : Json → Option (List (String × Json))
  | object fields => known? names fields
  | array items => if items.length ≤ names.length then some (names.zip items) else none
  | _ => none

/-- A member, or its default when it is not there. -/
def member? {α : Type} (members : List (String × Json)) (name : String) (decode? : Json → Option α)
    (default : α) : Option α :=
  match members.lookup name with
  | some value => decode? value
  | none => some default

end Json

open Json

def NamingConventions.ofJson? (j : Json) : Option NamingConventions := do
  let members ← members? ["fieldPrefix", "fieldSuffix", "parameterPrefix", "parameterSuffix"] j
  return {
    fieldPrefix := ← member? members "fieldPrefix" text? ""
    fieldSuffix := ← member? members "fieldSuffix" text? ""
    parameterPrefix := ← member? members "parameterPrefix" text? ""
    parameterSuffix := ← member? members "parameterSuffix" text? "" }

/-- The word of each policy. -/
def VisibilityPolicy.words : List (String × VisibilityPolicy) :=
  [VisibilityPolicy.escalate, .always .pub, .always .prot, .always .pack, .always .priv].map
    fun policy => (policy.word, policy)

def Dialect.words : List (String × Dialect) :=
  [Dialect.java, Dialect.groovy].map fun dialect => (dialect.word, dialect)

def Options.ofJson? (j : Json) : Option Options := do
  let members ← members?
    ["target", "visibility", "copyJavadoc", "creatorAnnotation", "propertyAnnotation", "naming"] j
  let standard := Options.standard
  return {
    target := ← member? members "target" (oneOf? Dialect.words) standard.target
    visibility := ← member? members "visibility" (oneOf? VisibilityPolicy.words) standard.visibility
    copyDoc := ← member? members "copyJavadoc" truth? standard.copyDoc
    creatorMark := ← member? members "creatorAnnotation" text? standard.creatorMark
    propertyMark := ← member? members "propertyAnnotation" text? standard.propertyMark
    naming := ← member? members "naming" NamingConventions.ofJson? standard.naming }

/-- An object whose only member names the mutation and holds an object with its parts, all of which
are needed. -/
def Mutation.ofJson? : Json → Option Mutation
  | .object [("InsertMember", .object parts)] => do
      let members ← known? ["class", "text"] parts
      let className ← (members.lookup "class").bind text?
      let text ← (members.lookup "text").bind text?
      return .insertMember className text
  | .object [("AddImport", .object parts)] => do
      let members ← known? ["path"] parts
      let path ← (members.lookup "path").bind text?
      return .addImport path
  | _ => none

end CreatorSynth
