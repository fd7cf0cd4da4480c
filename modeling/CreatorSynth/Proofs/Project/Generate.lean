import CreatorSynth.Project.Commands
import CreatorSynth.Proofs.Document.Edits
import CreatorSynth.Proofs.Project.FileTree

/-! What generation does to the files of a project. Everything is read and edited before the first
file is written, so a request either leaves all files alone or writes over the one it is for. -/
namespace CreatorSynth

/-- What a step answers in a workspace, and the workspace it leaves behind. -/
def Command.on {α : Type} (step : Command α) (w : Workspace) : Except CommandError α × Workspace :=
  step.run.run w

namespace Command

section Laws

variable {α β : Type}

@[simp] theorem on_pure (a : α) (w : Workspace) : (pure a : Command α).on w = (.ok a, w) :=
  rfl

@[simp] theorem on_get (w : Workspace) : (get : Command Workspace).on w = (.ok w, w) :=
  rfl

@[simp] theorem on_modify (f : Workspace → Workspace) (w : Workspace) :
    (modify f : Command PUnit).on w = (.ok ⟨⟩, f w) :=
  rfl

@[simp] theorem on_liftExcept (r : Except CommandError α) (w : Workspace) :
    (liftExcept r : Command α).on w = (r, w) := by
  cases r <;> rfl

@[simp] theorem on_editing (r : Except EditorError α) (w : Workspace) :
    (editing r).on w = (r.mapError .editor, w) := by
  cases r <;> rfl

@[simp] theorem on_orThrow (e : CommandError) (found : Option α) (w : Workspace) :
    (orThrow e found).on w = (found.elim (.error e) .ok, w) := by
  cases found <;> rfl

theorem on_bind (step : Command α) (next : α → Command β) (w : Workspace) :
    (step >>= next).on w =
      match step.on w with
      | (.ok a, w') => (next a).on w'
      | (.error e, w') => (.error e, w') := by
  change ((step >>= next).run.run w : Except CommandError β × Workspace) = _
  simp only [ExceptT.run_bind, StateT.run_bind, Command.on]
  rcases step.run.run w with ⟨_ | _, _⟩ <;> rfl

theorem on_bind_eq_ok {step : Command α} {next : α → Command β} {w w' : Workspace} {b : β} :
    (step >>= next).on w = (.ok b, w') ↔
      ∃ a mid, step.on w = (.ok a, mid) ∧ (next a).on mid = (.ok b, w') := by
  rw [on_bind]
  rcases step.on w with ⟨e | a, mid⟩
  · simp
  · simp

end Laws

/-- A step that leaves the workspace alone. -/
def Reads {α : Type} (step : Command α) : Prop :=
  ∀ w, (step.on w).2 = w

section Reads

variable {α β : Type}

theorem Reads.bind {step : Command α} {next : α → Command β} (first : Reads step)
    (others : ∀ a, Reads (next a)) : Reads (step >>= next) := by
  intro w
  rw [on_bind]
  have same := first w
  rcases run : step.on w with ⟨e | a, w'⟩
  · rwa [run] at same
  · rw [run] at same
    cases same
    exact others a _

theorem reads_pure (a : α) : Reads (pure a) :=
  fun _ => rfl

theorem reads_throw (e : CommandError) : Reads (throw e : Command α) :=
  fun _ => rfl

theorem reads_get : Reads get :=
  fun _ => rfl

theorem reads_liftExcept (r : Except CommandError α) : Reads (liftExcept r) :=
  fun w => by rw [on_liftExcept]

theorem reads_editing (r : Except EditorError α) : Reads (editing r) :=
  fun w => by rw [on_editing]

theorem reads_orThrow (e : CommandError) (found : Option α) : Reads (orThrow e found) :=
  fun w => by rw [on_orThrow]

theorem reads_pathOf (file : String) : Reads (pathOf file) :=
  reads_get.bind fun _ => reads_pure _

theorem reads_loadConfig : Reads loadConfig := by
  refine reads_get.bind fun w => ?_
  split
  · exact reads_pure _
  · exact reads_throw _

theorem reads_openDocument (file : String) : Reads (openDocument file) := by
  refine (reads_pathOf file).bind fun path => reads_get.bind fun w =>
    (reads_orThrow _ _).bind fun text => ?_
  split
  · exact reads_pure _
  · exact reads_throw _
  · exact reads_throw _

theorem reads_targetClass (d : Document) (className : Option String) :
    Reads (targetClass d className) := by
  cases className with
  | some name => exact reads_pure _
  | none => exact reads_orThrow _ _

theorem reads_openTarget (file : String) (className : Option String) :
    Reads (openTarget file className) :=
  reads_loadConfig.bind fun _ => (reads_openDocument file).bind fun _ =>
    (reads_targetClass _ _).bind fun _ => reads_get.bind fun _ => reads_pure _

end Reads

/-- What a request comes to before anything is written: what it works on, what is selected, the
outcome and the edited document. -/
structure Draft where
  target : Target
  selection : List Candidate
  outcome : Outcome
  edited : Document

def draft (r : Request) : Command Draft := do
  let target ← openTarget r.file r.className
  let found ← editing (target.document.candidates target.index target.className)
  let selection ← liftExcept (select found r.fields r.indices)
  let (outcome, edited) :=
    (Document.perform target.options target.index target.className selection).on target.document
  let outcome ← editing outcome
  return ⟨target, selection, outcome, edited⟩

def tell (r : Request) (d : Draft) : Command Unit := do
  if r.json then printLine d.outcome.toJson.pretty
  else if !r.toStdout then print (outcomeText d.target.className d.outcome)

def finish (r : Request) (d : Draft) : Command Unit := do
  if r.toStdout then print d.edited.source
  else if d.edited.isDirty then write r.file d.edited.source
  tell r d

theorem generate_eq (r : Request) : generate r = draft r >>= finish r := by
  simp only [generate, draft, finish, bind_assoc, pure_bind]
  rfl

theorem reads_draft (r : Request) : Reads (draft r) :=
  (reads_openTarget _ _).bind fun _ => (reads_editing _).bind fun _ =>
    (reads_liftExcept _).bind fun _ => (reads_editing _).bind fun _ => reads_pure _

section Draft

variable {r : Request} {w w' : Workspace} {d : Draft} {target : Target} {file : String}
  {className : Option String}

theorem openTarget_ok (opened : (openTarget file className).on w = (.ok target, w')) :
    ∃ text, w.tree.file? (PathName.join w.directory file) = some text ∧
      Document.ofFile (PathName.join w.directory file) text = .ok target.document := by
  obtain ⟨config, w₁, loaded, opened⟩ := on_bind_eq_ok.mp opened
  obtain ⟨document, w₂, read, opened⟩ := on_bind_eq_ok.mp opened
  obtain ⟨name, w₃, _, opened⟩ := on_bind_eq_ok.mp opened
  cases opened
  have same : w₁ = w := by
    rw [← reads_loadConfig w, loaded]
  subst same
  obtain ⟨path, w₄, located, read⟩ := on_bind_eq_ok.mp read
  cases located
  obtain ⟨_, _, ⟨⟩, read⟩ := on_bind_eq_ok.mp read
  obtain ⟨text, w₅, found, read⟩ := on_bind_eq_ok.mp read
  rw [on_orThrow] at found
  cases there : w₁.tree.file? (PathName.join w₁.directory file) with
  | none =>
    rw [there] at found
    cases found
  | some _ =>
    rw [there] at found
    cases found
    split at read
    · rename_i made
      cases read
      exact ⟨text, rfl, made⟩
    · cases read
    · cases read

theorem draft_ok (drafted : (draft r).on w = (.ok d, w')) :
    (∃ text, w.tree.file? (PathName.join w.directory r.file) = some text ∧
      Document.ofFile (PathName.join w.directory r.file) text = .ok d.target.document) ∧
    (∃ found, select found r.fields r.indices = .ok d.selection) ∧
    (Document.perform d.target.options d.target.index d.target.className d.selection).on
      d.target.document = (.ok d.outcome, d.edited) := by
  obtain ⟨target, w₁, opened, drafted⟩ := on_bind_eq_ok.mp drafted
  obtain ⟨found, w₂, _, drafted⟩ := on_bind_eq_ok.mp drafted
  obtain ⟨selection, w₃, selected, drafted⟩ := on_bind_eq_ok.mp drafted
  rcases performed : (Document.perform target.options target.index target.className selection).on
    target.document with ⟨answer, edited⟩
  rw [performed] at drafted
  obtain ⟨outcome, w₄, succeeded, drafted⟩ := on_bind_eq_ok.mp drafted
  cases drafted
  rw [on_editing] at succeeded
  rw [on_liftExcept] at selected
  refine ⟨openTarget_ok opened, ⟨found, congrArg Prod.fst selected⟩, ?_⟩
  cases answer with
  | error e => cases succeeded
  | ok _ =>
    cases succeeded
    exact performed

end Draft

section Finish

variable {r : Request} {w : Workspace} {d : Draft}

theorem on_print (text : String) (w : Workspace) :
    (print text).on w = (.ok ⟨⟩, { w with printed := w.printed ++ text }) :=
  rfl

theorem on_write (file text : String) (w : Workspace) :
    (write file text).on w =
      match w.tree.write? (PathName.join w.directory file) text with
      | some tree => (.ok ⟨⟩, { w with tree })
      | none => (.error (.cannotWrite (PathName.join w.directory file)), w) := by
  simp only [write, pathOf, on_bind, on_get, on_pure, on_orThrow, on_modify]
  cases w.tree.write? (PathName.join w.directory file) text <;> rfl

theorem on_tell (r : Request) (d : Draft) (w : Workspace) :
    ∃ printed, (tell r d).on w = (.ok ⟨⟩, { w with printed }) := by
  unfold tell
  split
  · exact ⟨_, on_print _ w⟩
  · split
    · exact ⟨_, on_print _ w⟩
    · exact ⟨w.printed, rfl⟩

theorem on_finish_unwritten (kept : r.toStdout = true ∨ d.edited.isDirty = false) :
    ∃ printed, (finish r d).on w = (.ok ⟨⟩, { w with printed }) := by
  unfold finish
  split
  · rw [on_bind, on_print]
    exact on_tell r d _
  · rename_i file
    rw [if_neg (by simp [kept.resolve_left file])]
    exact on_tell r d w

theorem on_finish_written (file : r.toStdout = false) (dirty : d.edited.isDirty = true) :
    match w.tree.write? (PathName.join w.directory r.file) d.edited.source with
    | some tree => ∃ printed, (finish r d).on w = (.ok ⟨⟩, { w with tree, printed })
    | none => (finish r d).on w = (.error (.cannotWrite (PathName.join w.directory r.file)), w) := by
  have unfolded : finish r d = write r.file d.edited.source >>= fun _ => tell r d := by
    rw [finish, file, dirty]
    rfl
  rw [unfolded, on_bind, on_write]
  split
  · rename_i tree _
    exact on_tell r d { w with tree }
  · rfl

end Finish

section Default

/-- Without a pick one base constructor is taken at most. -/
theorem length_selectByDefault (baseSeen : Bool) (cs : List Candidate) :
    ((selectByDefault baseSeen cs).filterMap Candidate.base?).length ≤
      if baseSeen then 0 else 1 := by
  induction cs generalizing baseSeen with
  | nil => simp [selectByDefault]
  | cons c cs ih =>
    cases c with
    | field f => exact ih baseSeen
    | base b =>
      cases baseSeen with
      | true => exact ih true
      | false =>
        have none := ih true
        simp only [if_true, Nat.le_zero_eq, List.length_eq_zero_iff] at none
        simp [selectByDefault, Candidate.isBase, Candidate.base?, none]

theorem length_select_default {found selection : List Candidate}
    (selected : select found [] [] = .ok selection) :
    (selection.filterMap Candidate.base?).length ≤ 1 := by
  cases selected
  exact length_selectByDefault false found

end Default

variable {r : Request} {w w' : Workspace} {d : Draft} {answer : Except CommandError Unit}

/-- Generation fails before there is a draft, or finishes one, and has written nothing by then. -/
theorem on_generate (r : Request) (w : Workspace) :
    (∃ e, (draft r).on w = (.error e, w) ∧ (generate r).on w = (.error e, w)) ∨
    ∃ d, (draft r).on w = (.ok d, w) ∧ (generate r).on w = (finish r d).on w := by
  have reads : w = ((draft r).on w).2 := (reads_draft r w).symm
  rw [generate_eq, on_bind]
  rcases drafted : (draft r).on w with ⟨e | d, mid⟩
  · rw [drafted] at reads
    subst reads
    exact .inl ⟨e, rfl, rfl⟩
  · rw [drafted] at reads
    subst reads
    exact .inr ⟨d, rfl, rfl⟩

/-- Finishing writes the edited source over that of the file, where there is one to write. -/
theorem finish_changes (drafted : (draft r).on w = (.ok d, w))
    (run : (finish r d).on w = (answer, w')) :
    (∃ e, answer = .error e ∧ w'.tree = w.tree) ∨
    answer = .ok ⟨⟩ ∧ ((r.toStdout = true ∨ d.outcome = .nothingToGenerate) ∧ w'.tree = w.tree ∨
      r.toStdout = false ∧ d.outcome ≠ .nothingToGenerate ∧
      (∃ old, w.tree.file? (PathName.join w.directory r.file) = some old ∧
        old ≠ d.edited.source) ∧
      w.tree.Rewritten (PathName.join w.directory r.file) d.edited.source w'.tree ∧
      ∃ unit, parseUnit d.edited.source
        (Dialect.ofPath (PathName.join w.directory r.file)) = .ok unit) := by
  obtain ⟨⟨old, there, opened⟩, _, performed⟩ := draft_ok drafted
  have dirty := Document.isDirty_perform_iff (Document.ofFile_eq_ok opened).2.2.2 performed
  by_cases kept : r.toStdout = true ∨ d.outcome = .nothingToGenerate
  · have clean : r.toStdout = true ∨ d.edited.isDirty = false :=
      kept.imp id fun nothing => eq_false_of_ne_true fun isDirty => dirty.mp isDirty nothing
    obtain ⟨printed, finished⟩ := on_finish_unwritten (w := w) clean
    rw [finished] at run
    cases run
    exact .inr ⟨rfl, .inl ⟨kept, rfl⟩⟩
  · obtain ⟨file, inserted⟩ := not_or.mp kept
    have finished := on_finish_written (w := w) (eq_false_of_ne_true file) (dirty.mpr inserted)
    split at finished
    · rename_i tree written
      obtain ⟨printed, finished⟩ := finished
      rw [finished] at run
      cases run
      obtain ⟨other, reads⟩ := Document.edited_file opened performed inserted
      exact .inr ⟨rfl, .inr ⟨eq_false_of_ne_true file, inserted, ⟨old, there, other⟩,
        FileTree.rewritten_of_write? there written, _, reads⟩⟩
    · rw [finished] at run
      cases run
      exact .inl ⟨_, rfl, rfl⟩

/-- Generation that fails, that is to print the source or that finds nothing to generate leaves all
files alone. Otherwise it changes the file it is for, and no other one, to the edited source, which
reads. Without a pick it selects one base constructor at most, and inserts one constructor at
most. -/
theorem generate_changes_target_only (run : (generate r).on w = (answer, w')) :
    ((∃ e, answer = .error e ∧ w'.tree = w.tree) ∨
      ∃ d, answer = .ok ⟨⟩ ∧ (draft r).on w = (.ok d, w) ∧
        ((r.toStdout = true ∨ d.outcome = .nothingToGenerate) ∧ w'.tree = w.tree ∨
          r.toStdout = false ∧ d.outcome ≠ .nothingToGenerate ∧
          (∃ old, w.tree.file? (PathName.join w.directory r.file) = some old ∧
            old ≠ d.edited.source) ∧
          w.tree.Rewritten (PathName.join w.directory r.file) d.edited.source w'.tree ∧
          ∃ unit, parseUnit d.edited.source
            (Dialect.ofPath (PathName.join w.directory r.file)) = .ok unit)) ∧
    (r.fields = [] → r.indices = [] →
      (∀ found selection, select found r.fields r.indices = .ok selection →
        (selection.filterMap Candidate.base?).length ≤ 1) ∧
      ∀ d name constructors imports, (draft r).on w = (.ok d, w) →
        d.outcome = .inserted name constructors imports → constructors.length ≤ 1) := by
  constructor
  · rcases on_generate r w with ⟨e, _, failed⟩ | ⟨d, drafted, finishes⟩
    · rw [failed] at run
      cases run
      exact .inl ⟨e, rfl, rfl⟩
    · rw [finishes] at run
      rcases finish_changes drafted run with failed | ⟨done, changed⟩
      · exact .inl failed
      · exact .inr ⟨d, done, drafted, changed⟩
  · intro noFields noIndices
    rw [noFields, noIndices]
    refine ⟨fun found selection selected => length_select_default selected, ?_⟩
    intro d name constructors imports drafted inserted
    obtain ⟨_, ⟨found, selected⟩, performed⟩ := draft_ok drafted
    rw [noFields, noIndices] at selected
    rw [inserted] at performed
    exact Nat.le_trans (Document.length_inserted_le performed)
      (Nat.max_le.mpr ⟨Nat.le_refl 1, length_select_default selected⟩)

/-- Two files, and a request for one of them. -/
def sampleWorkspace : Workspace where
  directory := "/p"
  tree := .ofFiles "/p" [("A.java", "class A \x7b\x7d"), ("B.java", "class B \x7b\x7d")]
  printed := ""

def sampleRequest : Request :=
  ⟨"A.java", none, [], [], false, false⟩

theorem sample_changes : ∃ w' d, (generate sampleRequest).on sampleWorkspace = (.ok ⟨⟩, w') ∧
    (draft sampleRequest).on sampleWorkspace = (.ok d, sampleWorkspace) ∧
    sampleWorkspace.tree.Rewritten "/p/A.java" d.edited.source w'.tree ∧
    d.edited.source ≠ "class A \x7b\x7d" ∧ w'.tree.file? "/p/B.java" = some "class B \x7b\x7d" := by
  have wrote : ((generate sampleRequest).on sampleWorkspace).2.tree ≠ sampleWorkspace.tree := by
    decide +kernel
  have path : PathName.join sampleWorkspace.directory sampleRequest.file = "/p/A.java" := by decide
  rcases run : (generate sampleRequest).on sampleWorkspace with ⟨answer, w'⟩
  rw [run] at wrote
  rcases (generate_changes_target_only run).1 with ⟨_, _, same⟩ | ⟨d, rfl, drafted, changed⟩
  · exact absurd same wrote
  rcases changed with ⟨_, same⟩ | ⟨_, _, ⟨old, there, other⟩, written, _⟩
  · exact absurd same wrote
  rw [path] at there written
  have known : sampleWorkspace.tree.file? "/p/A.java" = some "class A \x7b\x7d" := by decide
  have apart : sampleWorkspace.tree.place? "/p/B.java" ≠
      sampleWorkspace.tree.place? "/p/A.java" := by decide
  rw [known] at there
  cases there
  refine ⟨w', d, rfl, drafted, written, other.symm, ?_⟩
  rw [written.elsewhere _ apart]
  decide

end Command
end CreatorSynth
