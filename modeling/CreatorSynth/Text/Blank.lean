/-! White space in the sense of the property White_Space, and trimming by it. The lexer skips a
smaller set. -/
namespace CreatorSynth.Text

def isBlank (c : Char) : Bool :=
  let code := c.toNat
  (9 ≤ code && code ≤ 13) || code == 0x20 || code == 0x85 || code == 0xA0 || code == 0x1680 ||
    (0x2000 ≤ code && code ≤ 0x200A) || code == 0x2028 || code == 0x2029 || code == 0x202F ||
    code == 0x205F || code == 0x3000

def trimStart (cs : List Char) : List Char :=
  cs.dropWhile isBlank

def trimEnd (cs : List Char) : List Char :=
  (cs.reverse.dropWhile isBlank).reverse

def trim (cs : List Char) : List Char :=
  trimEnd (trimStart cs)

/-- A text without blanks at either end. -/
def trimmed (s : String) : String :=
  String.ofList (trim s.toList)

/-- Nothing but blanks. -/
def allBlank (cs : List Char) : Bool :=
  cs.all isBlank

end CreatorSynth.Text
