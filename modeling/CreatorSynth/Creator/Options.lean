import CreatorSynth.Decl.Basic
import CreatorSynth.Dialect
import CreatorSynth.Naming

/-! Options of the generator. -/
namespace CreatorSynth

/-- The access of generated constructors: that of the class, or always the same. -/
inductive VisibilityPolicy
  | escalate
  | always (v : Visibility)
  deriving DecidableEq, Repr

/-- Constructors of an enum are private without a word for it. -/
def VisibilityPolicy.resolve (policy : VisibilityPolicy) (kind : ClassKind)
    (classVisibility : Visibility) : Visibility :=
  if kind = .enum then .pack
  else match policy with
    | escalate => classVisibility
    | always v => v

structure Options where
  /-- The dialect bodies are generated in. -/
  target : Dialect
  visibility : VisibilityPolicy
  /-- Documentation of the base constructor is copied. -/
  copyDoc : Bool
  /-- Marks a generated constructor. -/
  creatorMark : String
  /-- Carries the name of the property a parameter receives. -/
  propertyMark : String
  naming : NamingConventions
  deriving DecidableEq, Repr

namespace Options

def standard : Options where
  target := .java
  visibility := .escalate
  copyDoc := false
  creatorMark := "com.fasterxml.jackson.annotation.JsonCreator"
  propertyMark := "com.fasterxml.jackson.annotation.JsonProperty"
  naming := NamingConventions.plain

end Options

end CreatorSynth
