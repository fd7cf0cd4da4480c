import CreatorSynth.Project.FileTree

/-! What writing a file does to a tree. A file that is there is written in its place, and all that
can be asked of the tree but its text stays. -/
namespace CreatorSynth.FileTree

variable {t t' : FileTree} {path text : String} {place : List String}

theorem holdsDirectory_congr (directories : t'.directories = t.directories)
    (files : t'.files.map (·.1) = t.files.map (·.1)) (place : List String) :
    t'.holdsDirectory place = t.holdsDirectory place := by
  have any : ∀ t : FileTree, (t.files.any fun file => place.isPrefixOf file.1 && place != file.1) =
      (t.files.map (·.1)).any fun name => place.isPrefixOf name && place != name := by
    intro t
    rw [List.any_map]
    rfl
  rw [holdsDirectory, holdsDirectory, any, any, directories, files]

theorem walk_congr (same : t'.holdsDirectory = t.holdsDirectory) (place names : List String) :
    t'.walk place names = t.walk place names := by
  induction names generalizing place with
  | nil => rfl
  | cons name names ih => simp only [walk, same, ih]

/-- One file has another text, and nothing else is different. -/
structure Rewritten (t : FileTree) (path text : String) (t' : FileTree) : Prop where
  directories : t'.directories = t.directories
  places : ∀ other, t'.place? other = t.place? other
  here : t'.file? path = some text
  elsewhere : ∀ other, t.place? other ≠ t.place? path → t'.file? other = t.file? other

theorem lookup_map_of_ne {files : List (List String × String)} {other : List String}
    (apart : other ≠ place) :
    (files.map fun file => if file.1 = place then (place, text) else file).lookup other =
      files.lookup other := by
  induction files with
  | nil => rfl
  | cons file files ih =>
    rw [List.map_cons]
    split
    · rename_i same
      rw [List.lookup_cons, List.lookup_cons, ih, same, beq_false_of_ne apart]
    · rw [List.lookup_cons, List.lookup_cons, ih]

theorem lookup_map_self {files : List (List String × String)} {old : String}
    (there : files.lookup place = some old) :
    (files.map fun file => if file.1 = place then (place, text) else file).lookup place =
      some text := by
  induction files with
  | nil => cases there
  | cons file files ih =>
    rw [List.map_cons]
    split
    · rw [List.lookup_cons, beq_self_eq_true]
    · rename_i apart
      have later : (place == file.1) = false := beq_false_of_ne (Ne.symm apart)
      rw [List.lookup_cons, later] at there ⊢
      exact ih there

theorem file?_eq_some {old : String} (there : t.file? path = some old) :
    PathName.endsInDirectory path = false ∧
      ∃ place, t.place? path = some place ∧ t.files.lookup place = some old := by
  unfold file? at there
  split at there
  · cases there
  · rename_i file
    exact ⟨eq_false_of_ne_true file, Option.bind_eq_some_iff.mp there⟩

theorem rewritten_of_write? {old : String} (there : t.file? path = some old)
    (written : t.write? path text = some t') : t.Rewritten path text t' := by
  obtain ⟨file, place, leads, holds⟩ := file?_eq_some there
  have known : t.files.any (·.1 == place) = true := by
    rw [List.any_eq_true]
    obtain ⟨before, after, split, _⟩ := List.lookup_eq_some_iff.mp holds
    exact ⟨(place, old), by rw [split]; simp, beq_self_eq_true place⟩
  have shape : t' = { t with
      files := t.files.map fun file => if file.1 = place then (place, text) else file } := by
    unfold write? at written
    rw [if_neg (by rw [file]; exact Bool.false_ne_true), leads] at written
    split at written
    · cases written
    · rename_i found filtered
      obtain ⟨same, _⟩ := Option.filter_eq_some_iff.mp filtered
      cases same
      rw [if_pos known] at written
      exact (Option.some.inj written).symm
  have keys : t'.files.map (·.1) = t.files.map (·.1) := by
    rw [shape, List.map_map]
    refine List.map_congr_left fun file _ => ?_
    simp only [Function.comp]
    split
    · rename_i same
      exact same.symm
    · rfl
  have places : ∀ other, t'.place? other = t.place? other := by
    intro other
    have directories : t'.directories = t.directories := by rw [shape]
    exact walk_congr (funext (holdsDirectory_congr directories keys)) [] _
  refine ⟨by rw [shape], places, ?_, fun other apart => ?_⟩
  · rw [file?, if_neg (by rw [file]; exact Bool.false_ne_true), places, leads, Option.bind_some,
      shape]
    exact lookup_map_self holds
  · rw [file?, file?, places]
    split
    · rfl
    · cases known : t.place? other with
      | none => rfl
      | some there =>
        rw [Option.bind_some, Option.bind_some, shape]
        exact lookup_map_of_ne fun same => apart (by rw [known, leads, same])

end CreatorSynth.FileTree
