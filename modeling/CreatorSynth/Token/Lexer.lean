import CreatorSynth.Parser.Error
import CreatorSynth.Text.Bytes
import CreatorSynth.Text.Letter
import CreatorSynth.Text.Numeral

/-! Cutting a source into pieces: tokens, and the gaps between them. The longest piece that fits
is taken. Whatever is scanned is handed on unchanged, so the texts of the pieces make up the
source. Each scanner returns the text it took and the text that follows. -/
namespace CreatorSynth
open Text

abbrev Cut := List Char × List Char

namespace Cut

/-- Puts a character back in front of what was taken. -/
def cons (c : Char) (cut : Cut) : Cut :=
  (c :: cut.1, cut.2)

/-- Characters as long as they satisfy `p`. -/
def spanning (p : Char → Bool) (cs : List Char) : Cut :=
  (cs.takeWhile p, cs.dropWhile p)

/-- One cut after another. -/
def andThen (first : Cut) (next : List Char → Cut) : Cut :=
  (first.1 ++ (next first.2).1, (next first.2).2)

end Cut

/-- Blanks between tokens; other white space is not accepted in a source. -/
def isGapChar (c : Char) : Bool :=
  c == ' ' || c == '\t' || c == '\n' || c == '\r' || c == '\x0c'

def isNameStart (c : Char) : Bool :=
  isLetter c || c == '_' || c == '$'

def isNamePart (c : Char) : Bool :=
  isLetter c || isNumeral c || c == '_' || c == '$'

def isOperatorChar (c : Char) : Bool :=
  "-+*/%!~|^".toList.contains c

/-- Through the end of a block comment. -/
def throughCommentEnd : List Char → Option Cut
  | [] => none
  | '*' :: '/' :: rest => some (['*', '/'], rest)
  | c :: rest => (throughCommentEnd rest).map (Cut.cons c)

/-- Through the closing quote on the same line. A backslash takes the next character with it. -/
def throughQuote (quote : Char) : List Char → Option Cut
  | [] => none
  | ['\\'] => none
  | '\\' :: c :: rest =>
      if c = '\n' then none else (throughQuote quote rest).map fun cut => Cut.cons '\\' (cut.cons c)
  | c :: rest =>
      if c = quote then some ([c], rest)
      else if c = '\n' then none
      else (throughQuote quote rest).map (Cut.cons c)

/-- Through the first three quotes in a row. -/
def throughBlockEnd : List Char → Option Cut
  | [] => none
  | '"' :: '"' :: '"' :: rest => some (['"', '"', '"'], rest)
  | c :: rest => (throughBlockEnd rest).map (Cut.cons c)

/-- A string literal after its first quote: a text block if one is closed, else a string that ends
on its line. -/
def throughString : List Char → Option Cut
  | '"' :: '"' :: rest =>
      match throughBlockEnd rest with
      | some cut => some ((cut.cons '"').cons '"')
      | none => throughQuote '"' ('"' :: '"' :: rest)
  | cs => throughQuote '"' cs

def isDigitPart (c : Char) : Bool :=
  c.isDigit || c == '_'

def isHexPart (c : Char) : Bool :=
  c.isDigit || (('a' ≤ c && c ≤ 'f') || ('A' ≤ c && c ≤ 'F')) || c == '_'

/-- A point and the digits after it, if there are any. -/
def fraction : List Char → Cut
  | '.' :: d :: rest =>
      if isDigitPart d then ((Cut.spanning isDigitPart rest).cons d).cons '.' else ([], '.' :: d :: rest)
  | cs => ([], cs)

/-- An exponent with at least one digit. -/
def exponent : List Char → Cut
  | e :: s :: d :: rest =>
      if e == 'e' || e == 'E' then
        if s.isDigit then (Cut.spanning Char.isDigit (d :: rest)).cons s |>.cons e
        else if (s == '+' || s == '-') && d.isDigit then
          (((Cut.spanning Char.isDigit rest).cons d).cons s).cons e
        else ([], e :: s :: d :: rest)
      else ([], e :: s :: d :: rest)
  | [e, d] => if (e == 'e' || e == 'E') && d.isDigit then ([e, d], []) else ([], [e, d])
  | cs => ([], cs)

/-- One character of a set, if it comes next. -/
def optionally (set : List Char) : List Char → Cut
  | c :: rest => if set.contains c then ([c], rest) else ([], c :: rest)
  | [] => ([], [])

/-- A decimal number after its first digit. -/
def throughDecimal (cs : List Char) : Cut :=
  (((Cut.spanning isDigitPart cs).andThen fraction).andThen exponent).andThen
    (optionally ['l', 'L', 'f', 'F', 'd', 'D'])

/-- A number after its first digit. A hexadecimal number needs a digit behind its mark. -/
def throughNumber (first : Char) : List Char → Cut
  | x :: h :: rest =>
      if first == '0' && (x == 'x' || x == 'X') && isHexPart h then
        (((Cut.spanning isHexPart rest).andThen (optionally ['l', 'L'])).cons h).cons x
      else throughDecimal (x :: h :: rest)
  | cs => throughDecimal cs

/-- A stretch of source: a token, or text that only separates tokens. -/
inductive Piece
  | gap (text : List Char)
  | token (t : Token)
  deriving DecidableEq, Repr

namespace Piece

def text : Piece → List Char
  | gap text => text
  | token t => t.text.toList

/-- A comment is documentation if it has a second star that does not close it. -/
def ofComment (text : List Char) : Piece :=
  if ['/', '*', '*'].isPrefixOf text && text != ['/', '*', '*', '/'] then
    token (.doc (String.ofList text))
  else gap text

/-- A word is a keyword or a name. -/
def ofWord (text : List Char) : Piece :=
  match Keyword.ofText? (String.ofList text) with
  | some word => token (.keyword word)
  | none => token (.name (String.ofList text))

/-- What a slash begins: a comment, or the operator. -/
def afterSlash : List Char → Piece × List Char
  | '/' :: rest =>
      let cut := Cut.spanning (· != '\n') rest
      (gap ('/' :: '/' :: cut.1), cut.2)
  | '*' :: rest =>
      match throughCommentEnd rest with
      | some cut => (ofComment ('/' :: '*' :: cut.1), cut.2)
      | none => (token (.operator '/'), '*' :: rest)
  | cs => (token (.operator '/'), cs)

/-- What a dot begins. -/
def afterDot : List Char → Piece × List Char
  | '.' :: '.' :: rest => (token (.symbol .ellipsis), rest)
  | cs => (token (.symbol .dot), cs)

/-- The first piece of a text, if one begins there. -/
def next? : List Char → Option (Piece × List Char)
  | [] => none
  | c :: cs =>
      if isGapChar c then
        let cut := (Cut.spanning isGapChar cs).cons c
        some (gap cut.1, cut.2)
      else if isNameStart c then
        let cut := (Cut.spanning isNamePart cs).cons c
        some (ofWord cut.1, cut.2)
      else if c.isDigit then
        let cut := (throughNumber c cs).cons c
        some (token (.number (String.ofList cut.1)), cut.2)
      else if c = '/' then some (afterSlash cs)
      else if c = '.' then some (afterDot cs)
      else if c = '"' then
        (throughString cs).map fun cut =>
          (token (.string (String.ofList (cut.cons c).1)), cut.2)
      else if c = '\'' then
        (throughQuote '\'' cs).map fun cut =>
          (token (.character (String.ofList (cut.cons c).1)), cut.2)
      else match Symbol.ofChar? c with
        | some s => some (token (.symbol s), cs)
        | none => if isOperatorChar c then some (token (.operator c), cs) else none

/-- Cuts a text into at most `bound` pieces. The error counts the bytes before the first text that
no piece begins with. -/
def allWithin : (bound : Nat) → (before : Nat) → List Char → Except Nat (List Piece)
  | _, _, [] => .ok []
  | 0, before, _ :: _ => .error before
  | bound + 1, before, c :: cs =>
      match next? (c :: cs) with
      | none => .error before
      | some (piece, rest) =>
          (allWithin bound (before + byteLength piece.text) rest).map (piece :: ·)

/-- The pieces of a text. Each takes a character at least, so the length bounds their number. -/
def all (cs : List Char) : Except Nat (List Piece) :=
  allWithin cs.length 0 cs

/-- The tokens among pieces that begin at byte `start`. -/
def locate : (start : Nat) → List Piece → List Located
  | _, [] => []
  | start, gap text :: pieces => locate (start + byteLength text) pieces
  | start, token t :: pieces =>
      let stop := start + byteLength t.text.toList
      ⟨t, start, stop⟩ :: locate stop pieces

end Piece

/-- The tokens of a source, documentation comments included. -/
def tokenize (source : String) : Except ParseError (List Located) :=
  match Piece.all source.toList with
  | .ok pieces => .ok (Piece.locate 0 pieces)
  | .error pos => .error (.unrecognized pos)

end CreatorSynth
