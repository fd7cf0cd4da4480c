import Mathlib.Data.List.Induction
import CreatorSynth.Proofs.Document.Atomicity
import CreatorSynth.Proofs.Parser.Run

/-! A document over its whole life. Whatever is done to it, and whichever of it fails, the unit is
that of the source, the version counts the changes that were kept, and the document is dirty while
its file lacks one of them. -/
namespace CreatorSynth.Document

/-- One edit leads from a document to another. -/
structure Edited (d d' : Document) : Prop where
  path : d'.path = d.path
  dialect : d'.dialect = d.dialect
  reads : parseUnit d'.source d'.dialect = .ok d'.unit
  version : d'.version = d.version + 1
  storage : d'.storage = Storage.touched d.storage

theorem splice_on_ok {e : TextEdit} {d d' : Document} (made : (splice e).on d = (.ok ⟨⟩, d')) :
    d.Edited d' := by
  simp only [splice, Editing.on_bind, Editing.on_get] at made
  split at made
  · cases made
  · split at made
    · cases made
    · rename_i unit reads
      cases made
      exact ⟨rfl, rfl, reads, rfl, rfl⟩

theorem apply_on_ok_cases {m : Mutation} {d d' : Document} {made : Applied}
    (run : (apply m).on d = (.ok made, d')) :
    (m.edit d.source d.unit d.dialect = .ok none ∧ made.changed = false ∧ d' = d) ∨
    ∃ e, m.edit d.source d.unit d.dialect = .ok (some e) ∧ made.changed = true ∧
      (splice e).on d = (.ok ⟨⟩, d') := by
  simp only [apply, Editing.on_bind, Editing.on_get] at run
  split at run
  · cases run
  · rename_i computed
    cases run
    exact .inl ⟨computed, rfl, rfl⟩
  · rename_i e computed
    rcases spliced : (splice e).on d with ⟨_ | ⟨⟩, next⟩
    · simp only [Editing.on_bind, spliced] at run
      cases run
    · simp only [Editing.on_bind, spliced, Editing.on_get, Editing.on_pure] at run
      cases run
      exact .inr ⟨e, computed, rfl, spliced⟩

theorem apply_on_ok {m : Mutation} {d d' : Document} {made : Applied}
    (run : (apply m).on d = (.ok made, d')) :
    (made.changed = false ∧ d' = d) ∨ (made.changed = true ∧ d.Edited d') := by
  rcases apply_on_ok_cases run with ⟨_, unchanged, same⟩ | ⟨e, _, changed, spliced⟩
  · exact .inl ⟨unchanged, same⟩
  · exact .inr ⟨changed, splice_on_ok spliced⟩

/-- What is done to a document. A file may refuse the text that is saved. -/
inductive Act
  | apply (m : Mutation)
  | applyAll (ms : List Mutation)
  | perform (options : Options) (index : ClassIndex) (className : String)
      (selection : List Candidate)
  | save (accepted : Bool)

/-- What happens to a document for good. -/
inductive Event
  | changed
  | saved
  deriving DecidableEq, Repr

/-- The mutations that bring generated constructors in; none if nothing can be generated. -/
def generated (d : Document) (options : Options) (index : ClassIndex) (className : String)
    (selection : List Candidate) : List Mutation :=
  match d.describe index className with
  | .error _ => []
  | .ok descriptor =>
      match d.prototypes options descriptor selection with
      | .error _ => []
      | .ok found => d.insertions className (found.map (·.shortenReferences d.unit))

/-- The changes that mutations make one after another, until one fails. -/
def changes : List Mutation → Document → List Event
  | [], _ => []
  | m :: ms, d =>
      match (Document.apply m).on d with
      | (.ok made, next) => (if made.changed then [.changed] else []) ++ changes ms next
      | (.error _, _) => []

/-- The changes of mutations that are kept: all of them, or none when one fails. -/
def keptChanges (ms : List Mutation) (d : Document) : List Event :=
  match (Document.applyAll ms).on d with
  | (.ok _, _) => changes ms d
  | (.error _, _) => []

namespace Act

/-- The document that is left. -/
def leaves : Act → Document → Document
  | apply m, d => ((Document.apply m).on d).2
  | applyAll ms, d => ((Document.applyAll ms).on d).2
  | perform options index className selection, d =>
      ((Document.perform options index className selection).on d).2
  | save true, d => (Document.save.on d).2
  | save false, d => d

/-- What happened to the document. -/
def events : Act → Document → List Event
  | apply m, d => changes [m] d
  | applyAll ms, d => keptChanges ms d
  | perform options index className selection, d =>
      keptChanges (d.generated options index className selection) d
  | save true, d => match Document.save.on d with
    | (.ok _, _) => [.saved]
    | (.error _, _) => []
  | save false, _ => []

end Act

/-- The document after all acts, and everything that happened to it. -/
def live : List Act → Document → Document × List Event
  | [], d => (d, [])
  | act :: acts, d =>
      let later := live acts (act.leaves d)
      (later.1, act.events d ++ later.2)

/-- Where a document is kept after an event. -/
def Storage.after : Storage → Event → Storage
  | .memory, _ => .memory
  | .file _, .changed => .file true
  | .file _, .saved => .file false

/-- From a document whose unit is that of its source, events lead to another one. -/
structure Follows (d : Document) (events : List Event) (d' : Document) : Prop where
  path : d'.path = d.path
  dialect : d'.dialect = d.dialect
  reads : parseUnit d.source d.dialect = .ok d.unit → parseUnit d'.source d'.dialect = .ok d'.unit
  version : d'.version = d.version + events.count .changed
  storage : d'.storage = events.foldl Storage.after d.storage

namespace Follows

variable {d next last : Document} {events more : List Event}

theorem refl (d : Document) : d.Follows [] d :=
  ⟨rfl, rfl, id, rfl, rfl⟩

theorem trans (first : d.Follows events next) (second : next.Follows more last) :
    d.Follows (events ++ more) last where
  path := second.path.trans first.path
  dialect := second.dialect.trans first.dialect
  reads := second.reads ∘ first.reads
  version := by rw [second.version, first.version, List.count_append, Nat.add_assoc]
  storage := by rw [second.storage, first.storage, List.foldl_append]

theorem of_edited (edited : d.Edited next) : d.Follows [.changed] next where
  path := edited.path
  dialect := edited.dialect
  reads := fun _ => edited.reads
  version := edited.version
  storage := by
    rw [edited.storage]
    cases d.storage <;> rfl

end Follows

theorem OneByOne.follows {d last : Document} {ms : List Mutation} {changed : Bool}
    (steps : OneByOne d ms last changed) : d.Follows (changes ms d) last := by
  induction steps with
  | nil d => exact .refl d
  | cons made more ih =>
    simp only [changes, made]
    refine Follows.trans ?_ ih
    rcases apply_on_ok made with ⟨unchanged, rfl⟩ | ⟨changed, edited⟩
    · rw [unchanged]
      exact .refl _
    · rw [changed]
      exact .of_edited edited

theorem applyAll_follows (ms : List Mutation) (d : Document) :
    d.Follows (keptChanges ms d) ((applyAll ms).on d).2 := by
  rcases applyAll_on ms d with ⟨last, changed, steps, run⟩ | ⟨_, _, _, _, _, _, _, _, _, run⟩
  · simp only [keptChanges, run]
    exact steps.follows
  · simp only [keptChanges, run]
    exact .refl d

theorem perform_leaves (options : Options) (index : ClassIndex) (className : String)
    (selection : List Candidate) (d : Document) :
    ((perform options index className selection).on d).2 =
      ((applyAll (d.generated options index className selection)).on d).2 := by
  rw [perform_on, generated]
  cases d.describe index className with
  | error e => rfl
  | ok descriptor =>
    dsimp only
    cases d.prototypes options descriptor selection with
    | error e => rfl
    | ok found =>
      dsimp only
      split
      · rename_i none
        rw [List.isEmpty_iff.mp none]
        rfl
      · split
        · rename_i run
          rw [run]
        · rename_i run
          rw [run]

theorem Act.follows (act : Act) (d : Document) : d.Follows (act.events d) (act.leaves d) := by
  cases act with
  | apply m =>
    simp only [events, leaves, changes]
    rcases run : (Document.apply m).on d with ⟨e | made, next⟩
    · rw [apply_on_error run]
      exact .refl d
    · rcases apply_on_ok run with ⟨unchanged, rfl⟩ | ⟨changed, edited⟩
      · simp only [unchanged]
        exact .refl _
      · simp only [changed]
        exact .of_edited edited
  | applyAll ms => exact applyAll_follows ms d
  | perform options index className selection =>
    simp only [events, leaves, perform_leaves]
    exact applyAll_follows _ d
  | save accepted =>
    cases accepted with
    | false => exact .refl d
    | true =>
      rcases d with ⟨path, version, dialect, source, unit, _ | dirty⟩
      · exact .refl _
      · exact ⟨rfl, rfl, id, rfl, rfl⟩

theorem live_follows (acts : List Act) (d : Document) :
    d.Follows (live acts d).2 (live acts d).1 := by
  induction acts generalizing d with
  | nil => exact .refl d
  | cons act acts ih => exact (act.follows d).trans (ih _)

theorem storage_after_memory (events : List Event) :
    events.foldl Storage.after .memory = .memory := by
  induction events with
  | nil => rfl
  | cons event events ih => exact ih

/-- A file is dirty if a change stands behind the last time it was saved. -/
theorem storage_after_file (events : List Event) :
    events.foldl Storage.after (.file false) = .file true ↔
      ∃ before after, events = before ++ .changed :: after ∧ Event.saved ∉ after := by
  have file : ∀ events : List Event, ∃ dirty,
      events.foldl Storage.after (.file false) = .file dirty := by
    intro events
    induction events using List.reverseRecOn with
    | nil => exact ⟨false, rfl⟩
    | append_singleton events event ih =>
      obtain ⟨dirty, known⟩ := ih
      rw [List.foldl_append, known]
      cases event
      · exact ⟨true, rfl⟩
      · exact ⟨false, rfl⟩
  induction events using List.reverseRecOn with
  | nil => simp
  | append_singleton events event ih =>
    obtain ⟨dirty, known⟩ := file events
    rw [List.foldl_append, known]
    cases event with
    | changed => exact ⟨fun _ => ⟨events, [], rfl, List.not_mem_nil⟩, fun _ => rfl⟩
    | saved =>
      constructor
      · intro clean
        cases clean
      · rintro ⟨before, after, split, unsaved⟩
        have last := congrArg List.getLast? split
        cases after using List.reverseRecOn with
        | nil => simp at last
        | append_singleton after event =>
          simp only [List.getLast?_append, List.getLast?_cons, Option.some_or,
            Option.some.injEq, Option.getD_some] at last
          subst last
          exact absurd (List.mem_append_right _ (List.mem_singleton_self _)) unsaved

theorem ofText_eq_ok {storage : Storage} {path source : String} {d : Document}
    (opened : ofText storage path source = .ok d) :
    parseUnit d.source d.dialect = .ok d.unit ∧ d.version = 0 ∧ d.storage = storage := by
  simp only [ofText] at opened
  split at opened
  · rename_i unit reads
    cases opened
    exact ⟨reads, rfl, rfl⟩
  · cases opened

/-- At every time the unit is that of the source, the version is the number of changes kept since
the document was made, and it is dirty just if it is kept in a file and a change was kept since it
was loaded or last saved. -/
theorem consistent_at_any_time {path source : String} {first last : Document} {acts : List Act}
    {events : List Event}
    (made : ofSource path source = .ok first ∨ ofFile path source = .ok first)
    (lived : live acts first = (last, events)) :
    parseUnit last.source last.dialect = .ok last.unit ∧
    last.version = events.count .changed ∧
    (last.isDirty = true ↔ ofFile path source = .ok first ∧
      ∃ before after, events = before ++ .changed :: after ∧ Event.saved ∉ after) := by
  have follows := live_follows acts first
  rw [lived] at follows
  have dirty : last.isDirty = true ↔ last.storage = .file true := by
    simp only [isDirty, beq_iff_eq]
  rw [dirty, follows.storage]
  rcases made with made | made
  · obtain ⟨reads, version, storage⟩ := ofText_eq_ok made
    refine ⟨follows.reads reads, ?_, ?_⟩
    · rw [follows.version, version, Nat.zero_add]
    · rw [storage, storage_after_memory]
      constructor
      · intro impossible
        cases impossible
      · rintro ⟨loaded, _⟩
        have file := (ofText_eq_ok loaded).2.2
        rw [storage] at file
        cases file
  · obtain ⟨reads, version, storage⟩ := ofText_eq_ok made
    refine ⟨follows.reads reads, ?_, ?_⟩
    · rw [follows.version, version, Nat.zero_add]
    · rw [storage, storage_after_file]
      exact ⟨fun unsaved => ⟨made, unsaved⟩, fun both => both.2⟩

def sampleFile : Document where
  path := "A.java"
  version := 0
  dialect := .java
  source := "class A \x7b\x7d"
  unit := ⟨none, [], 0,
    [⟨.ordinary, "A", .empty, [], none, [], [], [], none, ⟨8, 10⟩, ⟨0, 10⟩⟩], [0]⟩
  storage := .file false

/-- The change of two mutations fails, and the file refuses the text when it is saved last. -/
def sampleActs : List Act :=
  [.apply (.insertMember "A" "int x;"), .save true, .applyAll [.addImport "a.B", .addImport "b"],
    .apply (.addImport "a.B"), .save false]

theorem consistent_in_sample :
    ofFile "A.java" "class A \x7b\x7d" = .ok sampleFile ∧
    ∃ last, live sampleActs sampleFile = (last, [.changed, .saved, .changed]) ∧
      parseUnit last.source last.dialect = .ok last.unit ∧ last.version = 2 ∧
      last.isDirty = true := by
  have opened : ofFile "A.java" "class A \x7b\x7d" = .ok sampleFile :=
    eq_ok_of_toOption (by decide +kernel)
  have happened : (live sampleActs sampleFile).2 = [.changed, .saved, .changed] := by
    decide +kernel
  have lived : live sampleActs sampleFile =
      ((live sampleActs sampleFile).1, [.changed, .saved, .changed]) := by rw [← happened]
  obtain ⟨reads, version, dirty⟩ := consistent_at_any_time (.inr opened) lived
  exact ⟨opened, _, lived, reads, version,
    dirty.mpr ⟨opened, [.changed, .saved], [], rfl, List.not_mem_nil⟩⟩

end CreatorSynth.Document
