import CreatorSynth.Proofs.Creator.Prototype

/-! What a selection yields: a constructor for each selected constructor of the superclass, in their
order, or a single one when none is selected. -/
namespace CreatorSynth

theorem exists_of_forall₂ {α β : Type} {R : α → β → Prop} {as : List α} {bs : List β}
    (each : List.Forall₂ R as bs) {b : β} (member : b ∈ bs) : ∃ a ∈ as, R a b := by
  induction each with
  | nil => cases member
  | cons first _ ih =>
    rcases List.mem_cons.mp member with rfl | later
    · exact ⟨_, List.mem_cons_self, first⟩
    · obtain ⟨a, among, related⟩ := ih later
      exact ⟨a, List.mem_cons_of_mem _ among, related⟩

namespace Options

variable {options : Options} {c : ClassDescriptor} {selection : List Candidate}
  {found : List MethodDecl}

/-- The constructors of a selection, whether the class has them already or not. Each base
constructor is taken as the class sees it. -/
inductive Yields (options : Options) (c : ClassDescriptor) (selection : List Candidate) :
    List MethodDecl → Prop
  | single {m : MethodDecl} (unselected : selection.filterMap Candidate.base? = [])
      (generated : options.prototype c none (selection.filterMap Candidate.field?) = .ok m) :
      Yields options c selection [m]
  | each {superclass : Superclass} {ms : List MethodDecl} (known : c.superclass = some superclass)
      (generated : List.Forall₂ (fun base m =>
        options.prototype c (some (base.substitute (.ofSuperclass superclass)))
          (selection.filterMap Candidate.field?) = .ok m)
        (selection.filterMap Candidate.base?) ms) :
      Yields options c selection ms

/-- The ways in which a selection is answered. -/
inductive Answered (options : Options) (c : ClassDescriptor) (selection : List Candidate) :
    Except GenerateError (List MethodDecl) → Prop
  | badName (invalid : isIdentifier c.name = false) :
      Answered options c selection (.error (.unsupported (.className c.name)))
  | single (valid : isIdentifier c.name = true)
      (unselected : selection.filterMap Candidate.base? = []) :
      Answered options c selection ((options.prototype c none
        (selection.filterMap Candidate.field?)).map fun m => withoutExisting c [m])
  | orphan (valid : isIdentifier c.name = true)
      (selected : selection.filterMap Candidate.base? ≠ []) (unknown : c.superclass = none) :
      Answered options c selection (.error (.invalidTarget (.nothingToDelegateTo c.name)))
  | each {superclass : Superclass} (valid : isIdentifier c.name = true)
      (selected : selection.filterMap Candidate.base? ≠ [])
      (known : c.superclass = some superclass) :
      Answered options c selection (((selection.filterMap Candidate.base?).mapM fun base =>
        options.prototype c (some (base.substitute (.ofSuperclass superclass)))
          (selection.filterMap Candidate.field?)).map (withoutExisting c))

theorem generate_answered (options : Options) (c : ClassDescriptor) (selection : List Candidate) :
    options.Answered c selection (options.generate c selection) := by
  cases valid : isIdentifier c.name with
  | false =>
    have same : options.generate c selection = .error (.unsupported (.className c.name)) := by
      simp only [generate, valid]
      rfl
    rw [same]
    exact .badName valid
  | true =>
    cases unselected : selection.filterMap Candidate.base? with
    | nil =>
      have same : options.generate c selection = (options.prototype c none
          (selection.filterMap Candidate.field?)).map fun m => withoutExisting c [m] := by
        simp only [generate, valid, unselected]
        cases options.prototype c none (selection.filterMap Candidate.field?) <;> rfl
      rw [same]
      exact .single valid unselected
    | cons b bs =>
      have selected : selection.filterMap Candidate.base? ≠ [] := by simp [unselected]
      cases known : c.superclass with
      | none =>
        have same : options.generate c selection =
            .error (.invalidTarget (.nothingToDelegateTo c.name)) := by
          simp only [generate, valid, unselected, known]
          rfl
        rw [same]
        exact .orphan valid selected known
      | some superclass =>
        have same : options.generate c selection =
            ((selection.filterMap Candidate.base?).mapM fun base =>
              options.prototype c (some (base.substitute (.ofSuperclass superclass)))
                (selection.filterMap Candidate.field?)).map (withoutExisting c) := by
          simp only [generate, valid, unselected, known]
          cases (b :: bs).mapM fun base =>
            options.prototype c (some (base.substitute (.ofSuperclass superclass)))
              (selection.filterMap Candidate.field?) <;> rfl
        rw [same]
        exact .each valid selected known
/-- Either all constructors of a selection are generated, or none since the class has them. -/
theorem generate_yields (generated : options.generate c selection = .ok found) :
    ∃ ms, options.Yields c selection ms ∧ found = withoutExisting c ms := by
  have answered := generate_answered options c selection
  generalize options.generate c selection = answer at answered generated
  cases answered with
  | badName => cases generated
  | orphan => cases generated
  | single _ unselected =>
    cases drawn : options.prototype c none (selection.filterMap Candidate.field?) with
    | error e =>
      rw [drawn] at generated
      cases generated
    | ok m =>
      rw [drawn] at generated
      cases generated
      exact ⟨[m], .single unselected drawn, rfl⟩
  | @each superclass _ _ known =>
    cases drawn : (selection.filterMap Candidate.base?).mapM fun base =>
        options.prototype c (some (base.substitute (.ofSuperclass superclass)))
          (selection.filterMap Candidate.field?) with
    | error e =>
      rw [drawn] at generated
      cases generated
    | ok ms =>
      rw [drawn] at generated
      cases generated
      exact ⟨ms, .each known (mapM_eq_ok_iff.mp drawn), rfl⟩

theorem withoutExisting_cases (c : ClassDescriptor) (ms : List MethodDecl) :
    withoutExisting c ms = [] ∨ withoutExisting c ms = ms := by
  rw [withoutExisting]
  split
  · exact .inl rfl
  · exact .inr rfl

theorem Yields.length_le {ms : List MethodDecl} (yields : options.Yields c selection ms) :
    ms.length ≤ max 1 (selection.filterMap Candidate.base?).length := by
  cases yields with
  | single unselected generated => exact Nat.le_max_left _ _
  | each known generated => exact generated.length_eq ▸ Nat.le_max_right _ _

end Options
end CreatorSynth
