/-! Texts measured in bytes of their UTF-8 form. Positions in a source are byte offsets; a text is
cut between two characters only, and a cut anywhere else is refused, not moved. -/
namespace CreatorSynth.Text

def byteLength : List Char → Nat
  | [] => 0
  | c :: cs => c.utf8Size + byteLength cs

/-- What follows the first `n` bytes. -/
def dropBytes? : Nat → List Char → Option (List Char)
  | 0, cs => some cs
  | _ + 1, [] => none
  | n + 1, c :: cs => if c.utf8Size ≤ n + 1 then dropBytes? (n + 1 - c.utf8Size) cs else none

/-- The first `n` bytes. -/
def takeBytes? : Nat → List Char → Option (List Char)
  | 0, _ => some []
  | _ + 1, [] => none
  | n + 1, c :: cs =>
      if c.utf8Size ≤ n + 1 then (takeBytes? (n + 1 - c.utf8Size) cs).map (c :: ·) else none

/-- The text from byte `start` to byte `stop`. -/
def slice? (cs : List Char) (start stop : Nat) : Option (List Char) :=
  if start ≤ stop then (dropBytes? start cs).bind (takeBytes? (stop - start)) else none

@[simp] theorem byteLength_append (xs ys : List Char) :
    byteLength (xs ++ ys) = byteLength xs + byteLength ys := by
  induction xs with
  | nil => simp [byteLength]
  | cons c cs ih => simp [byteLength, ih, Nat.add_assoc]

theorem utf8ByteSize_ofList (cs : List Char) : (String.ofList cs).utf8ByteSize = byteLength cs := by
  induction cs with
  | nil => rfl
  | cons c cs ih => simp [String.ofList_cons, byteLength, ih]

/-- Positions agree with those of strings. -/
theorem byteLength_toList (s : String) : byteLength s.toList = s.utf8ByteSize := by
  rw [← utf8ByteSize_ofList, String.ofList_toList]

theorem dropBytes?_cons {c : Char} {cs : List Char} {n : Nat} (fits : c.utf8Size ≤ n) :
    dropBytes? n (c :: cs) = dropBytes? (n - c.utf8Size) cs := by
  have positive := c.utf8Size_pos
  match n with
  | 0 => omega
  | n + 1 => simp [dropBytes?, fits]

theorem takeBytes?_cons {c : Char} {cs : List Char} {n : Nat} (fits : c.utf8Size ≤ n) :
    takeBytes? n (c :: cs) = (takeBytes? (n - c.utf8Size) cs).map (c :: ·) := by
  have positive := c.utf8Size_pos
  match n with
  | 0 => omega
  | n + 1 => simp [takeBytes?, fits]

theorem dropBytes?_append (xs ys : List Char) :
    dropBytes? (byteLength xs) (xs ++ ys) = some ys := by
  induction xs with
  | nil => simp [byteLength, dropBytes?]
  | cons c cs ih =>
    rw [List.cons_append, dropBytes?_cons (by simp [byteLength])]
    simpa [byteLength] using ih

theorem takeBytes?_append (xs ys : List Char) :
    takeBytes? (byteLength xs) (xs ++ ys) = some xs := by
  induction xs with
  | nil => simp [byteLength, takeBytes?]
  | cons c cs ih =>
    rw [List.cons_append, takeBytes?_cons (by simp [byteLength])]
    simp [byteLength, ih]

theorem slice?_append (xs ys zs : List Char) :
    slice? (xs ++ ys ++ zs) (byteLength xs) (byteLength xs + byteLength ys) = some ys := by
  simp [slice?, dropBytes?_append, takeBytes?_append, List.append_assoc]

end CreatorSynth.Text
