import CreatorSynth.Document.Basic

/-! Reports of parse errors with the place in the source. Places count characters: the offset of
the error, which counts bytes, is taken for a number of characters. -/
namespace CreatorSynth
open Text

/-- A line ends at any of these; a carriage return and a line feed end it together. -/
def endsLine (c : Char) : Bool :=
  ['\r', '\n', '\x0b', '\x0c', '\u0085', '\u2028', '\u2029'].contains c

/-- Line and column of the character that so many others stand in front of, both from one. The end
of a text that ends a line is still on that line. -/
def lineAndColumn : (line column offset : Nat) → List Char → Nat × Nat
  | line, column, 0, _ => (line, column)
  | line, column, _ + 1, [] => (line, column)
  | line, column, offset + 1, [_] => (line, column + 1 + offset)
  | line, column, offset + 1, c :: d :: cs =>
      if endsLine c && !(c == '\r' && d == '\n') then lineAndColumn (line + 1) 1 offset (d :: cs)
      else lineAndColumn line (column + 1) offset (d :: cs)

structure ParseReport where
  headline : String
  path : String
  /-- Line and column; nothing behind the end of the source. -/
  place : Option (Nat × Nat)
  /-- What is written at the place; nothing behind the last character. -/
  label : Option String
  deriving DecidableEq, Repr

namespace ParseReport

def ofError (e : ParseError) (path source : String) : ParseReport where
  headline := firstLine ("Error: " ++ e.message)
  path := path
  place := if e.pos ≤ source.length then some (lineAndColumn 1 1 e.pos source.toList) else none
  label := if e.pos < source.length then some (firstLine e.label) else none

/-- Path, line and column, as far as there is a place. -/
def location? (r : ParseReport) : Option String :=
  r.place.map fun (line, column) => r.path ++ s!":{line}:{column}"

def message (r : ParseReport) : String :=
  r.headline ++ "\n" ++ r.location?.getD (r.path ++ ":?:?") ++ (r.label.map ("\n" ++ ·)).getD ""

end ParseReport

end CreatorSynth
