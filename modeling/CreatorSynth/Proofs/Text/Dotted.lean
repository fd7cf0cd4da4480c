import CreatorSynth.Text.Dotted

/-! Dotted names as lists of segments. Joining and splitting are inverse to each other as long as no
segment holds a dot. -/
namespace CreatorSynth.Text

/-- The text can be a segment of a dotted name. -/
def DotFree (s : String) : Prop :=
  '.' ∉ s.toList

theorem dotFree_of_mem_segments {s name : String} (member : s ∈ segments name) : DotFree s := by
  obtain ⟨part, inside, rfl⟩ := List.mem_map.mp member
  rw [DotFree, String.toList_ofList]
  exact separator_not_mem_of_mem_splitOn inside

theorem not_dotFree_append (front back : String) : ¬ DotFree (front ++ "." ++ back) := by
  simp [DotFree]

@[simp] theorem joinSegments_singleton (s : String) : joinSegments [s] = s := by
  simp [joinSegments]

theorem joinSegments_cons {first : String} {others : List String} (some : others ≠ []) :
    joinSegments (first :: others) = first ++ "." ++ joinSegments others :=
  String.intercalate_cons_of_ne_nil some

theorem joinSegments_append {front back : List String} (some : front ≠ []) (some' : back ≠ []) :
    joinSegments (front ++ back) = joinSegments front ++ "." ++ joinSegments back :=
  String.intercalate_append_of_ne_nil some some'

theorem joinSegments_segments (name : String) : joinSegments (segments name) = name := by
  apply String.toList_inj.mp
  have letters : (String.toList ∘ String.ofList) = id := funext fun cs => String.toList_ofList
  rw [joinSegments, segments, String.toList_intercalate, List.map_map, letters, List.map_id]
  exact intercalate_splitOn '.' name.toList

theorem splitOn_of_not_mem {separator : Char} {cs : List Char} (clean : separator ∉ cs) :
    splitOn separator cs = [cs] := by
  induction cs with
  | nil => rfl
  | cons c cs ih =>
    have other : c ≠ separator := fun same => clean (same ▸ List.mem_cons_self)
    have later : separator ∉ cs := fun inside => clean (List.mem_cons_of_mem _ inside)
    rw [splitOn, if_neg other, ih later]

theorem splitOn_append {separator : Char} {cs more : List Char} (clean : separator ∉ cs) :
    splitOn separator (cs ++ separator :: more) = cs :: splitOn separator more := by
  induction cs with
  | nil => rw [List.nil_append, splitOn, if_pos rfl]
  | cons c cs ih =>
    have other : c ≠ separator := fun same => clean (same ▸ List.mem_cons_self)
    have later : separator ∉ cs := fun inside => clean (List.mem_cons_of_mem _ inside)
    rw [List.cons_append, splitOn, if_neg other, ih later]

theorem segments_of_dotFree {s : String} (clean : DotFree s) : segments s = [s] := by
  rw [segments, splitOn_of_not_mem clean, List.map_singleton, String.ofList_toList]

theorem segments_append {s name : String} (clean : DotFree s) :
    segments (s ++ "." ++ name) = s :: segments name := by
  have letters : (s ++ "." ++ name).toList = s.toList ++ '.' :: name.toList := by simp
  rw [segments, letters, splitOn_append clean, List.map_cons, String.ofList_toList, segments]

theorem segments_joinSegments {parts : List String} (some : parts ≠ [])
    (clean : ∀ s ∈ parts, DotFree s) : segments (joinSegments parts) = parts := by
  induction parts with
  | nil => exact absurd rfl some
  | cons first others ih =>
    have here := clean first List.mem_cons_self
    cases others with
    | nil => rw [joinSegments_singleton, segments_of_dotFree here]
    | cons second others =>
      have behind := ih (List.cons_ne_nil _ _)
        fun s member => clean s (List.mem_cons_of_mem _ member)
      rw [joinSegments_cons (List.cons_ne_nil _ _), segments_append here, behind]

theorem segments_ne_nil (name : String) : segments name ≠ [] := by
  rw [segments, ne_eq, List.map_eq_nil_iff]
  exact splitOn_ne_nil '.' name.toList

theorem segments_dot (front back : String) :
    segments (front ++ "." ++ back) = segments front ++ segments back := by
  have joined : front ++ "." ++ back = joinSegments (segments front ++ segments back) := by
    rw [joinSegments_append (segments_ne_nil front) (segments_ne_nil back),
      joinSegments_segments, joinSegments_segments]
  rw [joined]
  refine segments_joinSegments (by simp [segments_ne_nil]) fun s member => ?_
  rcases List.mem_append.mp member with inside | inside
  · exact dotFree_of_mem_segments inside
  · exact dotFree_of_mem_segments inside

theorem simpleName_dot (front back : String) :
    simpleName (front ++ "." ++ back) = simpleName back := by
  rw [simpleName, segments_dot, List.getLast?_append,
    List.getLast?_eq_some_getLast (segments_ne_nil back), simpleName,
    List.getLast?_eq_some_getLast (segments_ne_nil back)]
  rfl

theorem simpleName_append {last : String} (front : String) (clean : DotFree last) :
    simpleName (front ++ "." ++ last) = last := by
  rw [simpleName_dot, simpleName, segments_of_dotFree clean]
  rfl

theorem splitLast?_append {last : String} (front : String) (clean : DotFree last) :
    splitLast? (front ++ "." ++ last) = some (front, last) := by
  rw [splitLast?, segments_dot, segments_of_dotFree clean]
  obtain ⟨first, others, parts⟩ := List.exists_cons_of_ne_nil (segments_ne_nil front)
  have whole := joinSegments_segments front
  rw [parts] at whole ⊢
  cases others with
  | nil => simpa using whole
  | cons second others =>
    simp only [List.cons_append, Option.some.injEq, Prod.mk.injEq]
    rw [← List.cons_append, ← List.cons_append, List.dropLast_concat, List.getLast?_concat]
    exact ⟨whole, rfl⟩

theorem splitHead_of_dotFree {s : String} (clean : DotFree s) : splitHead s = (s, none) := by
  rw [splitHead, segments_of_dotFree clean]

theorem splitHead_joinSegments {first : String} {others : List String} (clean : DotFree first)
    (clean' : ∀ s ∈ others, DotFree s) :
    (splitHead (joinSegments (first :: others))).1 = first ∧
      ∀ head, dotted head (splitHead (joinSegments (first :: others))).2 =
        joinSegments (head :: others) := by
  have parts : segments (joinSegments (first :: others)) = first :: others := by
    refine segments_joinSegments (List.cons_ne_nil _ _) fun s member => ?_
    cases member with
    | head => exact clean
    | tail _ member => exact clean' s member
  unfold splitHead
  rw [parts]
  cases others with
  | nil => simp [dotted]
  | cons second others => exact ⟨rfl, fun head => (joinSegments_cons (List.cons_ne_nil _ _)).symm⟩

theorem splitHead_spec (name : String) : DotFree (splitHead name).1 ∧
    dotted (splitHead name).1 (splitHead name).2 = name := by
  have parts := joinSegments_segments name
  have clean : ∀ s ∈ segments name, DotFree s := fun s => dotFree_of_mem_segments
  obtain ⟨first, others, split⟩ := List.exists_cons_of_ne_nil (segments_ne_nil name)
  rw [split] at parts clean
  rw [← parts]
  have clean_others := fun s member => clean s (List.mem_cons_of_mem first member)
  obtain ⟨head, rest⟩ := splitHead_joinSegments (clean first List.mem_cons_self) clean_others
  rw [rest, head]
  exact ⟨clean first List.mem_cons_self, rfl⟩

/-- The longer name is the other one, or ends with it behind a dot. -/
def EndsWithName (longer name : String) : Prop :=
  longer = name ∨ ∃ front, longer = front ++ "." ++ name

namespace EndsWithName

variable {longer name : String}

theorem simpleName (ends : EndsWithName longer name) :
    Text.simpleName longer = Text.simpleName name := by
  rcases ends with rfl | ⟨front, rfl⟩
  · rfl
  · exact simpleName_dot front name

theorem behind (ends : EndsWithName longer name) (front : String) :
    EndsWithName (front ++ "." ++ longer) name := by
  rcases ends with rfl | ⟨inner, rfl⟩
  · exact .inr ⟨front, rfl⟩
  · exact .inr ⟨front ++ "." ++ inner, by simp only [String.append_assoc]⟩

theorem dotted (ends : EndsWithName longer name) (rest : Option String) :
    EndsWithName (Text.dotted longer rest) (Text.dotted name rest) := by
  cases rest with
  | none => exact ends
  | some rest =>
    rcases ends with rfl | ⟨front, rfl⟩
    · exact .inl rfl
    · exact .inr ⟨front, by simp only [Text.dotted, String.append_assoc]⟩

end EndsWithName

theorem endsWithName_simpleName (name : String) : EndsWithName name (simpleName name) := by
  obtain ⟨front, last, split⟩ : ∃ front last, segments name = front ++ [last] :=
    ⟨_, _, (List.dropLast_concat_getLast (segments_ne_nil name)).symm⟩
  have whole := joinSegments_segments name
  rw [split] at whole
  rw [simpleName, split, List.getLast?_concat, Option.getD_some]
  cases front with
  | nil => exact .inl (whole.symm.trans (joinSegments_singleton last))
  | cons first others =>
    rw [joinSegments_append (List.cons_ne_nil _ _) (List.cons_ne_nil _ _),
      joinSegments_singleton] at whole
    exact .inr ⟨_, whole.symm⟩

end CreatorSynth.Text
