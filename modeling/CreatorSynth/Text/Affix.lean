/-! Beginnings and ends of texts taken away. -/
namespace CreatorSynth.Text

/-- What is left behind a beginning. -/
def dropStart? : (start cs : List Char) → Option (List Char)
  | [], cs => some cs
  | _ :: _, [] => none
  | s :: start, c :: cs => if s = c then dropStart? start cs else none

/-- What is left in front of an end. -/
def dropEnd? (stop cs : List Char) : Option (List Char) :=
  (dropStart? stop.reverse cs.reverse).map List.reverse

theorem dropStart?_eq_some_iff {start cs rest : List Char} :
    dropStart? start cs = some rest ↔ cs = start ++ rest := by
  induction start generalizing cs with
  | nil => simp [dropStart?, eq_comm]
  | cons s start ih =>
    cases cs with
    | nil => simp [dropStart?]
    | cons c cs =>
      by_cases same : s = c
      · simp [dropStart?, same, ih]
      · simp [dropStart?, same, Ne.symm same]

end CreatorSynth.Text
