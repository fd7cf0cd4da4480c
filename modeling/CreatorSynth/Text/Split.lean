/-! Texts cut at a separator, and lines. -/
namespace CreatorSynth.Text

/-- The parts between separators: one more than there are separators. -/
def splitOn (separator : Char) : List Char → List (List Char)
  | [] => [[]]
  | c :: cs =>
      if c = separator then [] :: splitOn separator cs
      else match splitOn separator cs with
        | [] => [[c]]
        | part :: parts => (c :: part) :: parts

theorem splitOn_ne_nil (separator : Char) (cs : List Char) : splitOn separator cs ≠ [] := by
  cases cs with
  | nil => simp [splitOn]
  | cons c cs => simp only [splitOn]; split <;> (try split) <;> simp

/-- The parts with a separator between them make up the text. -/
theorem intercalate_splitOn (separator : Char) (cs : List Char) :
    [separator].intercalate (splitOn separator cs) = cs := by
  induction cs with
  | nil => simp [splitOn, List.intercalate]
  | cons c cs ih =>
    cases parts : splitOn separator cs with
    | nil => exact absurd parts (splitOn_ne_nil separator cs)
    | cons part more =>
      rw [parts] at ih
      by_cases same : c = separator
      · simpa [splitOn, parts, same, List.intercalate, List.intersperse] using ih
      · cases more <;> simp_all [splitOn, List.intercalate, List.intersperse]

/-- No part holds the separator. -/
theorem separator_not_mem_of_mem_splitOn {separator : Char} {cs part : List Char}
    (member : part ∈ splitOn separator cs) : separator ∉ part := by
  induction cs generalizing part with
  | nil => simp_all [splitOn]
  | cons c cs ih =>
    cases parts : splitOn separator cs with
    | nil => exact absurd parts (splitOn_ne_nil separator cs)
    | cons first more =>
      rw [parts] at ih
      by_cases same : c = separator
      · simp only [splitOn, parts, same, ↓reduceIte] at member
        rcases List.mem_cons.mp member with rfl | later
        · simp
        · exact ih later
      · simp only [splitOn, parts, same, ↓reduceIte] at member
        rcases List.mem_cons.mp member with rfl | later
        · have clean := ih List.mem_cons_self
          simp [clean, Ne.symm same]
        · exact ih (List.mem_cons_of_mem _ later)

/-- A carriage return that stands before a line feed belongs to the end of the line. -/
def dropReturn (line : List Char) : List Char :=
  if line.getLast? = some '\r' then line.dropLast else line

/-- The lines of a text without their ends. What follows the last line feed is a line unless it
is empty, and keeps a carriage return at its end. -/
def lines (cs : List Char) : List (List Char) :=
  let parts := splitOn '\n' cs
  parts.dropLast.map dropReturn ++
    match parts.getLast? with
    | some (c :: rest) => [c :: rest]
    | _ => []

/-- The first line of a text. -/
def firstLine (s : String) : String :=
  String.ofList ((lines s.toList).headD [])

end CreatorSynth.Text
