import CreatorSynth.Text.Affix
import CreatorSynth.Text.Alphabetic
import CreatorSynth.Text.Capital
import CreatorSynth.Text.CaseMap

/-! Identifiers, naming conventions, and names that are not taken yet. -/
namespace CreatorSynth
open Text

/-- Words that cannot name a parameter. -/
def reservedWords : List String :=
  ["abstract", "assert", "boolean", "break", "byte", "case", "catch", "char", "class", "const",
    "continue", "default", "do", "double", "else", "enum", "extends", "final", "finally", "float",
    "for", "goto", "if", "implements", "import", "instanceof", "int", "interface", "long",
    "native", "new", "package", "private", "protected", "public", "return", "short", "static",
    "strictfp", "super", "switch", "synchronized", "this", "throw", "throws", "transient", "try",
    "void", "volatile", "while", "true", "false", "null", "_"]

def isReserved (name : String) : Bool :=
  reservedWords.contains name

def isIdentifierStart (c : Char) : Bool :=
  isAlphabetic c || c == '_' || c == '$'

def isIdentifierPart (c : Char) : Bool :=
  isAlphanumeric c || c == '_' || c == '$'

/-- The shape of an identifier; a reserved word has it too. -/
def hasIdentifierShape (name : String) : Bool :=
  match name.toList with
  | [] => false
  | c :: cs => isIdentifierStart c && cs.all isIdentifierPart

def isIdentifier (name : String) : Bool :=
  hasIdentifierShape name && !isReserved name

/-- The first character in lower case, unless the first two are upper case. -/
def decapitalize (name : String) : String :=
  match name.toList with
  | [] => ""
  | [c] => String.ofList (lowerOf c)
  | c :: d :: cs =>
      if isUppercase c && isUppercase d then name else String.ofList (lowerOf c ++ d :: cs)

/-- The first character in upper case. -/
def capitalize (name : String) : String :=
  match name.toList with
  | [] => ""
  | c :: cs => String.ofList (upperOf c ++ cs)

/-- Affixes by which fields and parameters are told from properties; an empty one is none. -/
structure NamingConventions where
  fieldPrefix : String
  fieldSuffix : String
  parameterPrefix : String
  parameterSuffix : String
  deriving DecidableEq, Repr

namespace NamingConventions

/-- Names are taken as they are. -/
def plain : NamingConventions :=
  ⟨"", "", "", ""⟩

/-- Fields named like `mName`. -/
def mPrefixed : NamingConventions :=
  { plain with fieldPrefix := "m" }

/-- What is left of a name without an affix. An empty affix is not taken away, nor one that is the
whole name. -/
def strip? (drop? : List Char → List Char → Option (List Char)) (affix name : String) :
    Option String :=
  if affix = "" then none
  else match drop? affix.toList name.toList with
    | some (c :: cs) => some (String.ofList (c :: cs))
    | _ => none

/-- The property held by a field. -/
def propertyOfField (naming : NamingConventions) (field : String) : String :=
  let unprefixed := strip? dropStart? naming.fieldPrefix field
  let name := unprefixed.getD field
  let name := (strip? dropEnd? naming.fieldSuffix name).getD name
  if unprefixed.isSome then decapitalize name else name

/-- The parameter that receives a property. Its first letter is capitalized behind a prefix, except
behind an underscore. -/
def parameterOfProperty (naming : NamingConventions) (property : String) : String :=
  let before := naming.parameterPrefix
  let joined := before = "" || before.toList.getLast? = some '_'
  before ++ (if joined then property else capitalize property) ++ naming.parameterSuffix

end NamingConventions

/-- The first name not taken among the candidate numbered from `n` on, testing at most `bound` of
them. -/
def numbered (isTaken : String → Bool) (candidate : String) : (bound n : Nat) → String
  | 0, n => candidate ++ toString n
  | bound + 1, n =>
      let name := candidate ++ toString n
      if isTaken name then numbered isTaken candidate bound (n + 1) else name

/-- The candidate, or the first free one with a number. No reserved word ends with a digit, so of
one number more than there are names taken one is free. -/
def uniquify (candidate : String) (taken : List String) : String :=
  let isTaken (name : String) : Bool := isReserved name || taken.contains name
  if isTaken candidate then numbered isTaken candidate taken.length 1 else candidate

end CreatorSynth
