import CreatorSynth.Model.Class
import CreatorSynth.Printer

/-! The text of a constructor body, written line by line. -/
namespace CreatorSynth
open Text

/-- Text written so far, and the indentation of the next line. -/
structure BodyText where
  text : String
  level : Nat
  deriving DecidableEq, Repr

/-- Parameters with their types, as they are declared. -/
def paramListText (params : List Param) : String :=
  ", ".intercalate <| params.map fun p =>
    p.type.text ++ (if p.varargs then "... " else " ") ++ p.name

namespace BodyText

def empty : BodyText :=
  ⟨"", 0⟩

def add (b : BodyText) (text : String) : BodyText :=
  { b with text := b.text ++ text }

def addLine (b : BodyText) (line : String) : BodyText :=
  b.add (repeated b.level indentUnit ++ line ++ "\n")

def indent (b : BodyText) : BodyText :=
  { b with level := b.level + 1 }

/-- There is no level below the first. -/
def dedent (b : BodyText) : BodyText :=
  { b with level := b.level - 1 }

/-- Opens a constructor. What is public needs no word for it in Groovy. -/
def start (d : Dialect) (b : BodyText) (name : String) (params : List Param) : BodyText :=
  let access := match d with
    | .java => "public "
    | .groovy => ""
  (b.addLine (access ++ name ++ "(" ++ paramListText params ++ ") \x7b")).indent

/-- Delegates to the superclass, unless there is nothing to hand over. -/
def superCall (d : Dialect) (b : BodyText) (baseParams : List Param) : BodyText :=
  if baseParams.isEmpty then b
  else b.addLine ("super(" ++ ", ".intercalate (baseParams.map (·.name)) ++ ")" ++ d.terminator)

/-- One assignment. A field whose name a parameter has is named behind `this`. -/
def assignmentText (d : Dialect) (taken : List String) (field param : String) : String :=
  let qualifier := if field = param ∨ field ∈ taken then "this." else ""
  qualifier ++ field ++ " = " ++ param ++ d.terminator

/-- Assigns each field from its parameter. -/
def assignFields (d : Dialect) (b : BodyText) (fields : List FieldDescriptor) (params : List Param)
    (taken : List String) : BodyText :=
  (fields.zip params).foldl
    (fun b pair => b.addLine (assignmentText d taken pair.1.name pair.2.name)) b

def finish (b : BodyText) : BodyText :=
  b.dedent.addLine "\x7d"

end BodyText

end CreatorSynth
