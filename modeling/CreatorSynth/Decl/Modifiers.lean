import CreatorSynth.Decl.Literal
import CreatorSynth.Text.Dotted

/-! Annotations and modifier words of a declaration. -/
namespace CreatorSynth
open Text

/-- The bytes of a source that a part covers. -/
structure Span where
  start : Nat
  stop : Nat
  deriving DecidableEq, Repr

/-- The span of what was not read from a source. -/
def Span.none : Span :=
  ⟨0, 0⟩

/-- An annotation. Its arguments are kept as text. -/
structure Annotation where
  name : String
  args : Option String
  span : Span
  deriving DecidableEq, Repr

namespace Annotation

/-- An annotation without arguments. -/
def marker (name : String) : Annotation :=
  ⟨name, none, Span.none⟩

/-- An annotation with one string for an argument. -/
def withLiteral (name value : String) : Annotation :=
  ⟨name, some (Literal.quote value), Span.none⟩

def simpleName (a : Annotation) : String :=
  Text.simpleName a.name

/-- The string that is the only argument. -/
def literal? (a : Annotation) : Option String :=
  a.args.bind Literal.ofArguments?

end Annotation

/-- Who may use a declaration; `pack` is the access without a modifier word. -/
inductive Visibility
  | pub
  | prot
  | pack
  | priv
  deriving DecidableEq, Repr

def Visibility.keyword? : Visibility → Option String
  | pub => some "public"
  | prot => some "protected"
  | priv => some "private"
  | pack => none

/-- The modifier words in the order they are written in. -/
def modifierOrder : List String :=
  ["public", "protected", "private", "abstract", "static", "final", "transient", "volatile",
    "synchronized", "native", "strictfp", "default", "sealed"]

def isModifierKeyword (word : String) : Bool :=
  modifierOrder.contains word

/-- Place of a word in the order; all other words stand behind the last. -/
def modifierRank (word : String) : Nat :=
  modifierOrder.idxOf word

/-- Modifier words and annotations of a declaration, each in source order. -/
structure Modifiers where
  keywords : List String
  annotations : List Annotation
  deriving DecidableEq, Repr

namespace Modifiers

def empty : Modifiers :=
  ⟨[], []⟩

def has (m : Modifiers) (word : String) : Bool :=
  m.keywords.contains word

/-- The first access word in the order of the words, not of the source. -/
def visibility (m : Modifiers) : Visibility :=
  if m.has "public" then .pub
  else if m.has "protected" then .prot
  else if m.has "private" then .priv
  else .pack

/-- All access words replaced by one in front. -/
def withVisibility (m : Modifiers) (v : Visibility) : Modifiers :=
  let others := m.keywords.filter fun word => ! ["public", "protected", "private"].contains word
  { m with keywords := v.keyword?.toList ++ others }

def annotate (m : Modifiers) (a : Annotation) : Modifiers :=
  { m with annotations := m.annotations ++ [a] }

/-- The first annotation of that name, or of that simple name. -/
def findAnnotation? (m : Modifiers) (name : String) : Option Annotation :=
  m.annotations.find? fun a => a.name == name || a.simpleName == Text.simpleName name

/-- Puts a word before the first that does not rank below it. -/
def insertByRank (word : String) : List String → List String
  | [] => [word]
  | w :: ws =>
      if modifierRank word ≤ modifierRank w then word :: w :: ws else w :: insertByRank word ws

/-- Words of equal rank keep their order. -/
def sortByRank (words : List String) : List String :=
  words.foldr insertByRank []

/-- Equal neighbours become one. -/
def dropRepeats : List String → List String
  | [] => []
  | [w] => [w]
  | v :: w :: ws => if v = w then dropRepeats (w :: ws) else v :: dropRepeats (w :: ws)

/-- Modifier words in their order, each once. -/
def normalize (m : Modifiers) : Modifiers :=
  { m with keywords := dropRepeats (sortByRank m.keywords) }

end Modifiers

end CreatorSynth
