import CreatorSynth.Text.Split

/-! Dotted names such as `java.util.Map`. Every text has segments: the empty text has one empty
segment. -/
namespace CreatorSynth.Text

def segments (name : String) : List String :=
  (splitOn '.' name.toList).map String.ofList

def joinSegments (parts : List String) : String :=
  ".".intercalate parts

/-- What follows the last dot, the whole name when it has none. -/
def simpleName (name : String) : String :=
  (segments name).getLast?.getD name

/-- The first segment, and what follows its dot. -/
def splitHead (name : String) : String × Option String :=
  match segments name with
  | first :: rest@(_ :: _) => (first, some (joinSegments rest))
  | _ => (name, none)

/-- What stands before the last dot, and what follows it. -/
def splitLast? (name : String) : Option (String × String) :=
  match segments name with
  | parts@(_ :: _ :: _) => some (joinSegments parts.dropLast, parts.getLast?.getD "")
  | _ => none

/-- A head followed by an optional rest. -/
def dotted (head : String) : Option String → String
  | some rest => head ++ "." ++ rest
  | none => head

end CreatorSynth.Text
