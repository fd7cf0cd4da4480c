import CreatorSynth.Text.Layout

/-! A text and the same text indented anew. -/
namespace CreatorSynth.Text

/-- White space within a line. -/
def Pad (cs : List Char) : Prop :=
  ∀ c ∈ cs, isBlank c = true ∧ c ≠ '\n'

/-- The second text is the first one with blanks at line ends dropped, and with the margin put in
front of lines. -/
inductive Laid (margin : List Char) : List Char → List Char → Prop
  | nil : Laid margin [] []
  | keep (c : Char) {xs ys : List Char} (rest : Laid margin xs ys) : Laid margin (c :: xs) (c :: ys)
  | feed {ending before xs ys : List Char} (blank : Pad ending)
      (known : before = margin ∨ before = []) (rest : Laid margin xs ys) :
      Laid margin (ending ++ '\n' :: xs) ('\n' :: (before ++ ys))

namespace Laid

variable {margin xs ys : List Char}

theorem refl (margin xs : List Char) : Laid margin xs xs := by
  induction xs with
  | nil => exact .nil
  | cons c xs ih => exact ih.keep c

theorem keepAll (front : List Char) (rest : Laid margin xs ys) :
    Laid margin (front ++ xs) (front ++ ys) := by
  induction front with
  | nil => exact rest
  | cons c front ih => exact ih.keep c

end Laid

/-- A line as it is indented anew. -/
def indented (margin line : List Char) : List Char :=
  if allBlank line then [] else margin ++ line

theorem toList_reindent (text indent : String) :
    (reindent text indent).toList =
      ['\n'].intercalate ((lines text.toList).map (indented indent.toList)) := by
  unfold reindent
  have line : ∀ line : List Char, (if allBlank line then "" else indent ++ String.ofList line).toList =
      indented indent.toList line := by
    intro line
    unfold indented
    split
    · rfl
    · rw [String.toList_append, String.toList_ofList]
  induction lines text.toList with
  | nil => rfl
  | cons first others ih =>
    cases others with
    | nil => simp [line]
    | cons second others =>
      rw [List.map_cons, List.map_cons, List.map_cons, List.map_cons] at *
      rw [String.intercalate_cons_of_ne_nil (by simp), List.intercalate_cons_cons, ← ih]
      simp [line]

theorem dropReturn_append (line : List Char) :
    ∃ ending, line = dropReturn line ++ ending ∧ ∀ c ∈ ending, c = '\r' := by
  unfold dropReturn
  split
  · rename_i last
    refine ⟨['\r'], ?_, by simp⟩
    obtain ⟨front, rfl⟩ := List.getLast?_eq_some_iff.mp last
    rw [List.dropLast_concat]
  · exact ⟨[], (List.append_nil line).symm, by simp⟩

/-- The lines of a text that does not end with a blank, put together again with a margin. -/
theorem laid_of_parts {margin last : List Char} {parts : List (List Char)}
    (lineless : ∀ part ∈ parts, '\n' ∉ part) (solid : allBlank last = false) :
    ∃ before ys, (before = margin ∨ before = []) ∧
      ['\n'].intercalate ((parts.map dropReturn ++ [last]).map (indented margin)) = before ++ ys ∧
      Laid margin (['\n'].intercalate (parts ++ [last])) ys := by
  induction parts with
  | nil =>
    refine ⟨margin, last, .inl rfl, ?_, ?_⟩
    · simp [indented, solid]
    · simpa using Laid.refl margin last
  | cons part parts ih =>
    obtain ⟨before, ys, known, whole, laid⟩ := ih fun part member =>
      lineless part (List.mem_cons_of_mem _ member)
    have shape : ∀ (first : List Char) (others : List (List Char)), others ≠ [] →
        ['\n'].intercalate (first :: others) = first ++ '\n' :: ['\n'].intercalate others := by
      intro first others more
      rw [List.intercalate_cons_of_ne_nil more, List.append_assoc]
      rfl
    rw [List.map_cons, List.cons_append, List.map_cons, shape _ _ (by simp), whole,
      List.cons_append, shape _ _ (by simp)]
    obtain ⟨ending, split, returns⟩ := dropReturn_append part
    by_cases blank : allBlank (dropReturn part) = true
    · refine ⟨[], '\n' :: (before ++ ys), .inr rfl, ?_, laid.feed ?_ known⟩
      · rw [indented, if_pos blank, List.nil_append]
      · intro c member
        refine ⟨?_, fun feed => lineless part List.mem_cons_self (feed ▸ member)⟩
        rw [split] at member
        rcases List.mem_append.mp member with inside | behind
        · exact List.all_eq_true.mp blank c inside
        · rw [returns c behind]
          decide
    · refine ⟨margin, dropReturn part ++ '\n' :: (before ++ ys), .inl rfl, ?_, ?_⟩
      · rw [indented, if_neg blank, List.append_assoc]
      · have pad : Pad ending := by
          intro c member
          rw [returns c member]
          decide
        have fed := (laid.feed pad known).keepAll (dropReturn part)
        rwa [← List.append_assoc, ← split] at fed

theorem intercalate_concat (parts : List (List Char)) (last : List Char) :
    ∃ front, ['\n'].intercalate (parts ++ [last]) = front ++ last ∧
      (front = [] ∨ front.getLast? = some '\n') := by
  induction parts with
  | nil => exact ⟨[], by simp, .inl rfl⟩
  | cons part parts ih =>
    obtain ⟨front, whole, _⟩ := ih
    rw [List.cons_append, List.intercalate_cons_of_ne_nil (by simp), whole]
    rename_i ends
    refine ⟨part ++ '\n' :: front, by simp, .inr ?_⟩
    rcases ends with rfl | feed
    · simp
    · rw [List.getLast?_append, List.getLast?_cons, feed]
      rfl

/-- Indenting a text that does not end with a blank lays it out anew, behind a margin. -/
theorem laid_reindent {cs : List Char} {indent : String} (some : cs ≠ [])
    (solid : ∀ c ∈ cs.getLast?, isBlank c = false) :
    ∃ before ys, (before = indent.toList ∨ before = []) ∧
      (reindent (String.ofList cs) indent).toList = before ++ ys ∧ Laid indent.toList cs ys := by
  obtain ⟨parts, last, split⟩ : ∃ parts last, splitOn '\n' cs = parts ++ [last] :=
    ⟨_, _, (List.dropLast_concat_getLast (splitOn_ne_nil '\n' cs)).symm⟩
  have whole := intercalate_splitOn '\n' cs
  rw [split] at whole
  have inner : allBlank last = false := by
    obtain ⟨front, shape, ends⟩ := intercalate_concat parts last
    rw [whole] at shape
    cases blank : allBlank last with
    | false => rfl
    | true =>
      rcases head : last.getLast? with _ | c
      · rw [List.getLast?_eq_none_iff] at head
        rw [head, List.append_nil] at shape
        rcases ends with rfl | feed
        · exact absurd shape some
        · rw [← shape] at feed
          exact absurd (solid '\n' feed) (by decide)
      · have final : cs.getLast? = Option.some c := by
          rw [shape, List.getLast?_append, head]
          rfl
        have clear := solid c final
        rw [List.all_eq_true.mp blank c (List.mem_of_getLast? head)] at clear
        cases clear
  have lined : lines cs = parts.map dropReturn ++ [last] := by
    rw [lines, split]
    cases last with
    | nil => cases inner
    | cons c rest => simp
  have lineless : ∀ part ∈ parts, '\n' ∉ part := fun part member =>
    @separator_not_mem_of_mem_splitOn '\n' cs part
      (by rw [split]; exact List.mem_append_left _ member)
  obtain ⟨before, ys, known, out, laid⟩ := @laid_of_parts indent.toList _ _ lineless inner
  refine ⟨before, ys, known, ?_, ?_⟩
  · rw [toList_reindent, String.toList_ofList, lined, out]
  · rwa [whole] at laid

end CreatorSynth.Text
