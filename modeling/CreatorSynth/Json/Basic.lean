import CreatorSynth.Text.Layout

/-! JSON values and their printed form. The members of an object are kept in order, and a number as
it is written. -/
namespace CreatorSynth
open Text

inductive Json
  | null
  | bool (value : Bool)
  | number (literal : String)
  | string (text : String)
  /-- A string, or an object with a key, in which an escape names no character. It can be skipped,
  but nothing can be read from it. -/
  | illFormed
  | array (items : List Json)
  | object (fields : List (String × Json))
  deriving Repr

namespace Json

def nat (n : Nat) : Json :=
  number (toString n)

/-- A value, or null. -/
def ofOption {α : Type} (encode : α → Json) : Option α → Json
  | some a => encode a
  | none => null

def ofList {α : Type} (encode : α → Json) (items : List α) : Json :=
  array (items.map encode)

def strings (items : List String) : Json :=
  ofList string items

/-- Two hexadecimal digits. -/
def hexByte (n : Nat) : List Char :=
  [Nat.digitChar (n / 16), Nat.digitChar (n % 16)]

/-- A character as it is written in a string. Only control characters, quotes and backslashes are
escaped. -/
def escape : Char → List Char
  | '"' => ['\\', '"']
  | '\\' => ['\\', '\\']
  | '\n' => ['\\', 'n']
  | '\r' => ['\\', 'r']
  | '\t' => ['\\', 't']
  | '\x08' => ['\\', 'b']
  | '\x0c' => ['\\', 'f']
  | c => if c.toNat < 0x20 then ['\\', 'u', '0', '0'] ++ hexByte c.toNat else [c]

def quoted (text : String) : String :=
  String.ofList ('"' :: text.toList.flatMap escape ++ ['"'])

/-- The start of a line so deep inside arrays and objects. -/
def newline (depth : Nat) : String :=
  "\n" ++ repeated depth "  "

mutual
/-- The value over several lines, two blanks for a level; empty arrays and objects stay on one. -/
def prettyAt (depth : Nat) : Json → String
  | null | illFormed => "null"
  | bool value => if value then "true" else "false"
  | number literal => literal
  | string text => quoted text
  | array [] => "[]"
  | array (item :: items) =>
      "[" ++ newline (depth + 1) ++ item.prettyAt (depth + 1) ++ moreItems (depth + 1) items ++
        newline depth ++ "]"
  | object [] => "\x7b\x7d"
  | object ((key, value) :: fields) =>
      "\x7b" ++ newline (depth + 1) ++ quoted key ++ ": " ++ value.prettyAt (depth + 1) ++
        moreFields (depth + 1) fields ++ newline depth ++ "\x7d"

def moreItems (depth : Nat) : List Json → String
  | [] => ""
  | item :: items => "," ++ newline depth ++ item.prettyAt depth ++ moreItems depth items

def moreFields (depth : Nat) : List (String × Json) → String
  | [] => ""
  | (key, value) :: fields =>
      "," ++ newline depth ++ quoted key ++ ": " ++ value.prettyAt depth ++ moreFields depth fields
end

def pretty (value : Json) : String :=
  value.prettyAt 0

end Json

end CreatorSynth
