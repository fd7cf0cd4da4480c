import CreatorSynth.Document.Creators

/-! Several mutations are one change: either each of them is made, or the document stays as it was.
The same holds for the generation of constructors, which goes through such a change. -/
namespace CreatorSynth

/-- What a step answers on a document, and the document it leaves behind. -/
def Editing.on {α : Type} (step : Editing α) (d : Document) : Except EditorError α × Document :=
  step.run.run d

namespace Editing

variable {α β : Type}

@[simp] theorem on_pure (a : α) (d : Document) : (pure a : Editing α).on d = (.ok a, d) :=
  rfl

@[simp] theorem on_throw (e : EditorError) (d : Document) :
    (throw e : Editing α).on d = (.error e, d) :=
  rfl

@[simp] theorem on_get (d : Document) : (get : Editing Document).on d = (.ok d, d) :=
  rfl

@[simp] theorem on_set (d d' : Document) : (set d' : Editing PUnit).on d = (.ok ⟨⟩, d') :=
  rfl

@[simp] theorem on_liftExcept (r : Except EditorError α) (d : Document) :
    (liftExcept r : Editing α).on d = (r, d) := by
  cases r <;> rfl

theorem on_bind (step : Editing α) (next : α → Editing β) (d : Document) :
    (step >>= next).on d =
      match step.on d with
      | (.ok a, d') => (next a).on d'
      | (.error e, d') => (.error e, d') := by
  change ((step >>= next).run.run d : Except EditorError β × Document) = _
  simp only [ExceptT.run_bind, StateT.run_bind, Editing.on]
  rcases step.run.run d with ⟨_ | _, _⟩ <;> rfl

theorem on_tryCatch (step : Editing α) (handler : EditorError → Editing α) (d : Document) :
    (tryCatch step handler).on d =
      match step.on d with
      | (.ok a, d') => (.ok a, d')
      | (.error e, d') => (handler e).on d' := by
  change ((tryCatch step handler).run.run d : Except EditorError α × Document) = _
  simp only [ExceptT.run_tryCatch, StateT.run_bind, Editing.on]
  rcases step.run.run d with ⟨_ | _, _⟩ <;> rfl

end Editing

namespace Document

/-- Mutations made one by one, none of which fails: from one document to another, and whether any
of them changed anything. -/
inductive OneByOne : Document → List Mutation → Document → Bool → Prop
  | nil (d : Document) : OneByOne d [] d false
  | cons {d next last : Document} {m : Mutation} {ms : List Mutation} {first : Applied}
      {later : Bool} (made : (apply m).on d = (.ok first, next))
      (more : OneByOne next ms last later) :
      OneByOne d (m :: ms) last (first.changed || later)

/-- A mutation that fails leaves the document alone: nothing is stored before the edited source has
been read. -/
theorem apply_on_error {m : Mutation} {d d' : Document} {e : EditorError}
    (failed : (apply m).on d = (.error e, d')) : d' = d := by
  simp only [apply, Editing.on_bind, Editing.on_get] at failed
  split at failed
  · exact (congrArg Prod.snd failed).symm
  · cases failed
  · simp only [splice, Editing.on_bind, Editing.on_get] at failed
    split at failed
    · cases failed
    · rename_i stopped
      split at stopped
      · cases stopped
        exact (congrArg Prod.snd failed).symm
      · split at stopped
        · cases stopped
          exact (congrArg Prod.snd failed).symm
        · cases stopped

theorem applyEach_on (ms : List Mutation) (d : Document) :
    (∃ last changed, OneByOne d ms last changed ∧ (applyEach ms).on d = (.ok changed, last)) ∨
    (∃ before m after next changed e, ms = before ++ m :: after ∧
      OneByOne d before next changed ∧ (apply m).on next = (.error e, next) ∧
      (applyEach ms).on d = (.error e, next)) := by
  induction ms generalizing d with
  | nil => exact .inl ⟨d, false, .nil d, rfl⟩
  | cons m ms ih =>
    rcases made : (apply m).on d with ⟨e | first, next⟩
    · have same := apply_on_error made
      subst same
      refine .inr ⟨[], m, ms, next, false, e, rfl, .nil next, made, ?_⟩
      simp only [applyEach, Editing.on_bind, made]
    · rcases ih next with ⟨last, later, steps, run⟩ |
        ⟨before, m', after, next', changed, e, rfl, steps, failed, run⟩
      · refine .inl ⟨last, first.changed || later, .cons made steps, ?_⟩
        simp only [applyEach, Editing.on_bind, made, run, Editing.on_pure]
      · refine .inr ⟨m :: before, m', after, next', first.changed || changed, e, rfl,
          .cons made steps, failed, ?_⟩
        simp only [applyEach, Editing.on_bind, made, run]

/-- The whole change answers what the mutations do one by one, or fails with the error of the first
that fails and restores the document. -/
theorem applyAll_on (ms : List Mutation) (d : Document) :
    (∃ last changed, OneByOne d ms last changed ∧
      (applyAll ms).on d = (.ok ⟨last.version, changed⟩, last)) ∨
    (∃ before m after next changed e, ms = before ++ m :: after ∧
      OneByOne d before next changed ∧ (apply m).on next = (.error e, next) ∧
      (applyAll ms).on d = (.error e, d)) := by
  have unfolded : (applyAll ms).on d =
      match (applyEach ms).on d with
      | (.ok changed, last) => (.ok ⟨last.version, changed⟩, last)
      | (.error e, _) => (.error e, d) := by
    simp only [applyAll, Editing.on_bind, Editing.on_get, Editing.on_tryCatch]
    rcases (applyEach ms).on d with ⟨_ | _, _⟩ <;> rfl
  rcases applyEach_on ms d with ⟨last, changed, steps, run⟩ |
    ⟨before, m, after, next, changed, e, split, steps, failed, run⟩
  · exact .inl ⟨last, changed, steps, by rw [unfolded, run]⟩
  · exact .inr ⟨before, m, after, next, changed, e, split, steps, failed, by rw [unfolded, run]⟩

theorem applyAll_on_error {ms : List Mutation} {d d' : Document} {e : EditorError}
    (failed : (applyAll ms).on d = (.error e, d')) : d' = d := by
  rcases applyAll_on ms d with ⟨last, changed, _, run⟩ | ⟨_, _, _, _, _, _, _, _, _, run⟩
  · rw [run] at failed
    cases failed
  · rw [run] at failed
    exact (congrArg Prod.snd failed).symm

theorem perform_on (options : Options) (index : ClassIndex) (className : String)
    (selection : List Candidate) (d : Document) :
    (perform options index className selection).on d =
      match d.describe index className with
      | .error e => (.error e, d)
      | .ok c =>
          match d.prototypes options c selection with
          | .error e => (.error e, d)
          | .ok found =>
              if found.isEmpty then (.ok .nothingToGenerate, d)
              else
                let shortened := found.map (·.shortenReferences d.unit)
                match (applyAll (d.insertions className shortened)).on d with
                | (.error e, d') => (.error e, d')
                | (.ok _, d') =>
                    (.ok (.inserted c.name (shortened.map (·.1.headline))
                      (shortened.flatMap (·.2)).eraseDups), d') := by
  simp only [perform, Editing.on_bind, Editing.on_get, Editing.on_liftExcept]
  cases d.describe index className with
  | error e => rfl
  | ok c =>
    dsimp only
    cases d.prototypes options c selection with
    | error e => rfl
    | ok found =>
      dsimp only
      split
      · rfl
      · rw [Editing.on_bind]
        rcases (applyAll _).on d with ⟨_ | _, _⟩ <;> rfl

theorem perform_on_unchanged {options : Options} {index : ClassIndex} {className : String}
    {selection : List Candidate} {d d' : Document} {answer : Except EditorError Outcome}
    (run : (perform options index className selection).on d = (answer, d'))
    (nothing : (∃ e, answer = .error e) ∨ answer = .ok .nothingToGenerate) : d' = d := by
  rw [perform_on] at run
  split at run
  · exact (congrArg Prod.snd run).symm
  split at run
  · exact (congrArg Prod.snd run).symm
  split at run
  · exact (congrArg Prod.snd run).symm
  -- Only the change itself is left, which fails as a whole or leads to an insertion.
  dsimp only at run
  split at run
  · rename_i failed
    cases run
    exact applyAll_on_error failed
  · cases run
    rcases nothing with ⟨e, impossible⟩ | impossible <;> cases impossible

theorem perform_on_inserted {options : Options} {index : ClassIndex} {className : String}
    {selection : List Candidate} {d d' : Document} {name : String}
    {constructors imports : List String}
    (run : (perform options index className selection).on d =
      (.ok (.inserted name constructors imports), d')) :
    ∃ c found changed, d.describe index className = .ok c ∧
      d.prototypes options c selection = .ok found ∧ found ≠ [] ∧
      constructors = found.map (fun m => (m.shortenReferences d.unit).1.headline) ∧
      OneByOne d (d.insertions className (found.map (·.shortenReferences d.unit))) d' changed := by
  rw [perform_on] at run
  split at run
  · cases run
  rename_i c described
  split at run
  · cases run
  rename_i found generated
  split at run
  · cases run
  rename_i some
  dsimp only at run
  have filled : found ≠ [] := fun empty => some (List.isEmpty_iff.mpr empty)
  rcases applyAll_on (d.insertions className (found.map (·.shortenReferences d.unit))) d with
    ⟨last, changed, steps, made⟩ | ⟨_, _, _, _, _, _, _, _, _, failed⟩
  · rw [made] at run
    cases run
    exact ⟨c, found, changed, described, generated, filled, by rw [List.map_map]; rfl, steps⟩
  · rw [failed] at run
    cases run

/-- A change of several mutations is made as a whole, with the outcome of making them one by one, or
fails as the first failing one does and leaves the document as it was. Generation leaves it as it
was unless constructors were inserted. -/
theorem change_all_or_nothing (d : Document) :
    (∀ ms : List Mutation,
      (∃ last changed, OneByOne d ms last changed ∧
        (applyAll ms).on d = (.ok ⟨last.version, changed⟩, last)) ∨
      (∃ before m after next changed e, ms = before ++ m :: after ∧
        OneByOne d before next changed ∧ (apply m).on next = (.error e, next) ∧
        (applyAll ms).on d = (.error e, d))) ∧
    (∀ options index className selection,
      ((perform options index className selection).on d).2 = d ∨
      ∃ name constructors imports,
        ((perform options index className selection).on d).1 =
          .ok (.inserted name constructors imports)) := by
  refine ⟨fun ms => applyAll_on ms d, fun options index className selection => ?_⟩
  cases run : (perform options index className selection).on d with
  | mk answer d' =>
    cases answer with
    | error e => exact .inl (perform_on_unchanged run (.inl ⟨e, rfl⟩))
    | ok outcome =>
      cases outcome with
      | nothingToGenerate => exact .inl (perform_on_unchanged run (.inr rfl))
      | inserted name constructors imports => exact .inr ⟨name, constructors, imports, rfl⟩

end Document
end CreatorSynth
