import CreatorSynth.Json.Basic

/-! Reading JSON texts. Each scanner answers what it read and the text that follows, or nothing if
the text is not JSON. -/
namespace CreatorSynth.Json

def isSpace (c : Char) : Bool :=
  c == ' ' || c == '\n' || c == '\t' || c == '\r'

def skipSpace (cs : List Char) : List Char :=
  cs.dropWhile isSpace

/-- The value of a hexadecimal digit. -/
def hexDigit? (c : Char) : Option Nat :=
  if c.isDigit then some (c.toNat - '0'.toNat)
  else if 'a' ≤ c ∧ c ≤ 'f' then some (c.toNat - 'a'.toNat + 10)
  else if 'A' ≤ c ∧ c ≤ 'F' then some (c.toNat - 'A'.toNat + 10)
  else none

def hexFour? : List Char → Option (Nat × List Char)
  | a :: b :: c :: d :: rest => do
      let a ← hexDigit? a
      let b ← hexDigit? b
      let c ← hexDigit? c
      let d ← hexDigit? d
      return (((a * 16 + b) * 16 + c) * 16 + d, rest)
  | _ => none

/-- What a backslash and a letter stand for. -/
def simpleEscape? : Char → Option Char
  | '"' => some '"'
  | '\\' => some '\\'
  | '/' => some '/'
  | 'b' => some '\x08'
  | 'f' => some '\x0c'
  | 'n' => some '\n'
  | 'r' => some '\r'
  | 't' => some '\t'
  | _ => none

def isHighSurrogate (code : Nat) : Bool :=
  decide (0xD800 ≤ code) && decide (code ≤ 0xDBFF)

def isLowSurrogate (code : Nat) : Bool :=
  decide (0xDC00 ≤ code) && decide (code ≤ 0xDFFF)

/-- The character of a code given in an escape, for which a second code may be needed; none if the
codes name no character. -/
def escapedCode (code : Nat) (rest : List Char) : Option Char × List Char :=
  if isHighSurrogate code then
    match rest with
    | '\\' :: 'u' :: more =>
        match hexFour? more with
        | some (low, after) =>
            if isLowSurrogate low then
              (some (Char.ofNat (0x10000 + (code - 0xD800) * 0x400 + (low - 0xDC00))), after)
            else (none, rest)
        | none => (none, rest)
    | _ => (none, rest)
  else if isLowSurrogate code then (none, rest)
  else (some (Char.ofNat code), rest)

/-- A string behind its first quote, in at most `bound` steps. The text is missing if an escape
names no character. -/
def stringWithin : (bound : Nat) → List Char → Option (Option (List Char) × List Char)
  | 0, _ => none
  | _ + 1, [] => none
  | _ + 1, '"' :: rest => some (some [], rest)
  | bound + 1, '\\' :: 'u' :: rest => do
      let (code, after) ← hexFour? rest
      let (c, after) := escapedCode code after
      let (text, rest) ← stringWithin bound after
      return (c.bind fun c => text.map (c :: ·), rest)
  | bound + 1, '\\' :: c :: rest => do
      let c ← simpleEscape? c
      let (text, rest) ← stringWithin bound rest
      return (text.map (c :: ·), rest)
  | bound + 1, c :: rest => do
      if c = '\\' ∨ c.toNat < 0x20 then none
      let (text, rest) ← stringWithin bound rest
      return (text.map (c :: ·), rest)

def string? (cs : List Char) : Option (Option (List Char) × List Char) :=
  stringWithin (cs.length + 1) cs

/-- One digit or more. -/
def digits? (cs : List Char) : Option (List Char × List Char) :=
  match cs.takeWhile Char.isDigit with
  | [] => none
  | ds => some (ds, cs.dropWhile Char.isDigit)

/-- The digits in front of the point. A zero stands alone. -/
def wholePart? : List Char → Option (List Char × List Char)
  | '0' :: rest => some (['0'], rest)
  | cs => digits? cs

def fractionPart? : List Char → Option (List Char × List Char)
  | '.' :: rest => (digits? rest).map fun (ds, rest) => ('.' :: ds, rest)
  | cs => some ([], cs)

def exponentPart? : List Char → Option (List Char × List Char)
  | c :: rest =>
      if c = 'e' ∨ c = 'E' then
        match rest with
        | s :: more =>
            if s = '+' ∨ s = '-' then (digits? more).map fun (ds, rest) => (c :: s :: ds, rest)
            else (digits? rest).map fun (ds, rest) => (c :: ds, rest)
        | [] => none
      else some ([], c :: rest)
  | [] => some ([], [])

def number? (cs : List Char) : Option (Json × List Char) := do
  let (sign, cs) := match cs with
    | '-' :: rest => (['-'], rest)
    | _ => ([], cs)
  let (whole, cs) ← wholePart? cs
  let (fraction, cs) ← fractionPart? cs
  let (exponent, cs) ← exponentPart? cs
  return (number (String.ofList (sign ++ whole ++ fraction ++ exponent)), cs)

/-- A fixed word. -/
def word? (word : String) (value : Json) (cs : List Char) : Option (Json × List Char) :=
  if word.toList.isPrefixOf cs then some (value, cs.drop word.length) else none

mutual
/-- A value and the text behind it, in at most `bound` steps. -/
def valueWithin : (bound : Nat) → List Char → Option (Json × List Char)
  | 0, _ => none
  | bound + 1, cs =>
      match skipSpace cs with
      | [] => none
      | '[' :: rest =>
          match skipSpace rest with
          | ']' :: rest => some (array [], rest)
          | rest => (itemsWithin bound rest).map fun (items, rest) => (array items, rest)
      | '{' :: rest =>
          match skipSpace rest with
          | '}' :: rest => some (object [], rest)
          | rest => (fieldsWithin bound rest).map fun (fields, rest) =>
              (fields.elim illFormed object, rest)
      | '"' :: rest => (string? rest).map fun (text, rest) =>
          (text.elim illFormed fun text => string (String.ofList text), rest)
      | 'n' :: rest => word? "ull" null rest
      | 't' :: rest => word? "rue" (bool true) rest
      | 'f' :: rest => word? "alse" (bool false) rest
      | rest => number? rest

/-- The items of an array through its end. -/
def itemsWithin : (bound : Nat) → List Char → Option (List Json × List Char)
  | 0, _ => none
  | bound + 1, cs => do
      let (item, rest) ← valueWithin bound cs
      match skipSpace rest with
      | ',' :: rest => (itemsWithin bound rest).map fun (items, rest) => (item :: items, rest)
      | ']' :: rest => some ([item], rest)
      | _ => none

/-- The members of an object through its end. They are missing if a key has no text. -/
def fieldsWithin : (bound : Nat) → List Char → Option (Option (List (String × Json)) × List Char)
  | 0, _ => none
  | bound + 1, cs =>
      match skipSpace cs with
      | '"' :: rest => do
          let (key, rest) ← string? rest
          match skipSpace rest with
          | ':' :: rest =>
              let (value, rest) ← valueWithin bound rest
              let field := key.map fun key => (String.ofList key, value)
              match skipSpace rest with
              | ',' :: rest =>
                  (fieldsWithin bound rest).map fun (fields, rest) =>
                    (field.bind fun field => fields.map (field :: ·), rest)
              | '}' :: rest => some (field.map fun field => [field], rest)
              | _ => none
          | _ => none
      | _ => none
end

/-- The value that a text consists of. Each step takes a character, except for one more inside each
array and object. -/
def parse? (text : String) : Option Json :=
  match valueWithin (2 * text.length + 2) text.toList with
  | some (value, rest) => if (skipSpace rest).isEmpty then some value else none
  | none => none

end CreatorSynth.Json
