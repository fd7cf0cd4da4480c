import CreatorSynth.Proofs.Creator.Selection
import CreatorSynth.Proofs.Document.History
import CreatorSynth.Proofs.Text.Boundary
import CreatorSynth.Proofs.Text.Reindent

/-! What edits do to a source. They take nothing out but blanks, so a source only grows by what is
written besides blanks, and it does grow when a member is inserted. -/
namespace CreatorSynth
open Text

namespace Text

variable {cs ds : List Char} {c : Char}

/-- A text without its blanks. -/
def solid (cs : List Char) : List Char :=
  cs.filter fun c => !isBlank c

@[simp] theorem solid_append : solid (cs ++ ds) = solid cs ++ solid ds :=
  List.filter_append ..

theorem mem_solid : c ∈ solid cs ↔ c ∈ cs ∧ isBlank c = false := by
  simp [solid]

theorem solid_of_blank (blank : allBlank cs = true) : solid cs = [] := by
  simpa [solid, allBlank] using blank

theorem mem_trimEnd (member : c ∈ cs) (some : isBlank c = false) : c ∈ trimEnd cs := by
  rw [trimEnd, List.mem_reverse]
  have split := List.takeWhile_append_dropWhile (p := isBlank) (l := cs.reverse)
  rw [← List.mem_reverse, ← split, List.mem_append] at member
  refine member.resolve_left fun front => ?_
  rw [List.all_eq_true.mp List.all_takeWhile c front] at some
  cases some

theorem isBlank_getLast_trimEnd (cs : List Char) :
    ∀ c ∈ (trimEnd cs).getLast?, isBlank c = false := by
  intro c last
  rw [trimEnd, List.getLast?_reverse] at last
  have front := List.head?_dropWhile_not isBlank cs.reverse
  rw [Option.mem_def.mp last] at front
  exact front

theorem Laid.mem {margin xs ys : List Char} (laid : Laid margin xs ys) (some : isBlank c = false)
    (member : c ∈ xs) : c ∈ ys := by
  induction laid with
  | nil => exact member
  | keep d _ ih =>
    rcases List.mem_cons.mp member with rfl | later
    · exact List.mem_cons_self
    · exact List.mem_cons_of_mem _ (ih later)
  | feed blank _ _ ih =>
    rcases List.mem_append.mp member with ending | later
    · rw [(blank c ending).1] at some
      cases some
    · rcases List.mem_cons.mp later with rfl | behind
      · exact List.mem_cons_self
      · exact List.mem_cons_of_mem _ (List.mem_append_right _ (ih behind))

theorem mem_reindent {text indent : String} (some : isBlank c = false) (member : c ∈ text.toList) :
    c ∈ (reindent (String.ofList (trimEnd text.toList)) indent).toList := by
  have inside := mem_trimEnd member some
  obtain ⟨before, ys, _, whole, laid⟩ := @laid_reindent _ indent (List.ne_nil_of_mem inside)
    (isBlank_getLast_trimEnd text.toList)
  rw [whole]
  exact List.mem_append_right _ (laid.mem some inside)

end Text

namespace TextEdit

variable {e : TextEdit} {source result : String}

theorem slice?_front (front back : List Char) :
    slice? (front ++ back) 0 (byteLength front) = some front := by
  have cut := slice?_append [] front back
  rwa [List.nil_append, byteLength, Nat.zero_add] at cut

theorem applyTo?_eq_some_iff : e.applyTo? source = some result ↔ ∃ before mid after,
    source.toList = before ++ mid ++ after ∧ byteLength before = e.start ∧
      byteLength (before ++ mid) = e.stop ∧
      result = String.ofList (before ++ e.text.toList ++ after) := by
  constructor
  · intro made
    simp only [applyTo?, bind, Option.bind_eq_some_iff] at made
    obtain ⟨before, first, mid, cut, after, last, same⟩ := made
    obtain ⟨front, back, whole, start, stop⟩ := slice?_eq_some_iff.mp cut
    rw [whole, ← start, List.append_assoc, slice?_front] at first
    rw [whole, ← stop, dropBytes?_append] at last
    cases first
    cases last
    exact ⟨_, mid, _, whole, start, stop, (Option.some.inj same).symm⟩
  · rintro ⟨before, mid, after, whole, start, stop, rfl⟩
    have cut := slice?_eq_some_iff.mpr ⟨before, after, whole, start, stop⟩
    rw [whole] at cut
    have first := slice?_front before (mid ++ after)
    rw [← List.append_assoc, start] at first
    rw [applyTo?, whole, first, cut, ← stop, dropBytes?_append]
    rfl

/-- Nothing but blanks stands between the ends of the edit. -/
def CutsBlanks (e : TextEdit) (source : String) : Prop :=
  ∀ mid, slice? source.toList e.start e.stop = some mid → allBlank mid = true

theorem cutsBlanks_of_slice? {mid : List Char} (cut : slice? source.toList e.start e.stop = some mid)
    (blank : allBlank mid = true) : e.CutsBlanks source := by
  intro other cut'
  rw [cut] at cut'
  cases cut'
  exact blank

theorem cutsBlanks_insertion (offset : Nat) (text source : String) :
    (insertion offset text).CutsBlanks source := by
  intro mid cut
  obtain ⟨front, back, _, start, stop⟩ := slice?_eq_some_iff.mp cut
  have empty : byteLength mid = 0 := by
    have same : byteLength front = byteLength (front ++ mid) := start.trans stop.symm
    rw [byteLength_append] at same
    omega
  by_cases none : mid = []
  · rw [none]
    rfl
  · exact absurd empty (Nat.ne_of_gt (byteLength_pos none))

theorem CutsBlanks.length_solid (blanks : e.CutsBlanks source)
    (made : e.applyTo? source = some result) :
    (solid result.toList).length =
      (solid source.toList).length + (solid e.text.toList).length := by
  obtain ⟨before, mid, after, whole, start, stop, rfl⟩ := applyTo?_eq_some_iff.mp made
  have blank := blanks mid (slice?_eq_some_iff.mpr ⟨before, after, whole, start, stop⟩)
  rw [String.toList_ofList, whole]
  simp only [solid_append, solid_of_blank blank, List.length_append, List.length_nil]
  omega

end TextEdit

section Insertion

variable {source text : String} {u : CompilationUnit} {dialect : Dialect} {m : Mutation}
  {e : TextEdit}

/-- A member is put in the place of blanks, and nothing of it but blanks is left out. -/
theorem ClassDecl.cutsBlanks_insertion? {c : ClassDecl}
    (computed : c.insertion? source text = some e) :
    e.CutsBlanks source ∧ ∀ d ∈ text.toList, isBlank d = false → d ∈ e.text.toList := by
  simp only [insertion?, bind, Option.bind_eq_some_iff] at computed
  obtain ⟨classIndent, _, memberIndent, _, anchor, _, computed⟩ := computed
  have body : ∀ {d}, d ∈ text.toList → isBlank d = false →
      d ∈ (reindent (String.ofList (trimEnd text.toList)) memberIndent).toList :=
    fun member some => mem_reindent some member
  split at computed
  · obtain ⟨rest, cut, computed⟩ := Option.bind_eq_some_iff.mp computed
    split at computed
    · rename_i blank
      cases computed
      refine ⟨TextEdit.cutsBlanks_of_slice? cut (Bool.and_eq_true_iff.mp blank).2,
        fun d member some => ?_⟩
      simp [body member some]
    · obtain ⟨after, _, computed⟩ := Option.bind_eq_some_iff.mp computed
      cases computed
      refine ⟨TextEdit.cutsBlanks_insertion _ _ _, fun d member some => ?_⟩
      simp [TextEdit.insertion, body member some]
  · obtain ⟨inner, cut, computed⟩ := Option.bind_eq_some_iff.mp computed
    split at computed
    · rename_i blank
      cases computed
      refine ⟨TextEdit.cutsBlanks_of_slice? cut blank, fun d member some => ?_⟩
      simp [body member some]
    · cases computed
      refine ⟨TextEdit.cutsBlanks_insertion _ _ _, fun d member some => ?_⟩
      simp [TextEdit.insertion, body member some]

theorem CompilationUnit.cutsBlanks_importEdit {path : String}
    (computed : u.importEdit path dialect = .ok (some e)) : e.CutsBlanks source := by
  unfold importEdit at computed
  split at computed
  · cases computed
  · split at computed
    · cases computed
    · simp only at computed
      split at computed
      · cases computed
        exact TextEdit.cutsBlanks_insertion _ _ _
      · split at computed
        · cases computed
          exact TextEdit.cutsBlanks_insertion _ _ _
        · cases computed
          exact TextEdit.cutsBlanks_insertion _ _ _

/-- The mutation inserts something besides blanks. -/
def Mutation.Inserts (m : Mutation) : Prop :=
  ∃ className text c, m = .insertMember className text ∧ c ∈ text.toList ∧ isBlank c = false

/-- No edit takes out anything but blanks, and a member is always an edit that brings in itself. -/
theorem Mutation.edit_ok {found : Option TextEdit} (computed : m.edit source u dialect = .ok found) :
    (∀ e ∈ found, e.CutsBlanks source) ∧
    (m.Inserts → ∃ e, found = some e ∧ solid e.text.toList ≠ []) := by
  unfold edit at computed
  simp only [bind, Except.bind] at computed
  split at computed
  · cases computed
  · cases m with
    | insertMember className text =>
      simp only at computed
      split at computed
      · cases computed
      · split at computed
        · rename_i e inserted
          cases computed
          obtain ⟨blanks, kept⟩ := ClassDecl.cutsBlanks_insertion? inserted
          refine ⟨fun _ same => Option.some.inj same ▸ blanks, ?_⟩
          rintro ⟨_, _, c, ⟨⟩, member, some⟩
          exact ⟨e, rfl, List.ne_nil_of_mem (mem_solid.mpr ⟨kept c member some, some⟩)⟩
        · cases computed
    | addImport path =>
      refine ⟨fun e same => ?_, fun ⟨_, _, _, impossible, _⟩ => by cases impossible⟩
      rw [Option.mem_def.mp same] at computed
      exact CompilationUnit.cutsBlanks_importEdit computed

end Insertion

namespace Document

variable {options : Options} {index : ClassIndex} {className path source : String}
  {selection : List Candidate} {d d' : Document} {outcome : Outcome}

/-- How much stands in the source of a document besides blanks. -/
def solidLength (d : Document) : Nat :=
  (solid d.source.toList).length

theorem splice_on_ok_source {e : TextEdit} (made : (splice e).on d = (.ok ⟨⟩, d')) :
    e.applyTo? d.source = some d'.source := by
  simp only [splice, Editing.on_bind, Editing.on_get] at made
  split at made
  · cases made
  · rename_i cut
    split at made
    · cases made
    · cases made
      exact cut

theorem apply_on_ok_solidLength {m : Mutation} {made : Applied}
    (run : (apply m).on d = (.ok made, d')) :
    d.solidLength ≤ d'.solidLength ∧ (m.Inserts → d.solidLength < d'.solidLength) := by
  rcases apply_on_ok_cases run with ⟨computed, _, rfl⟩ | ⟨e, computed, _, spliced⟩
  · refine ⟨Nat.le_refl _, fun inserts => ?_⟩
    obtain ⟨e, impossible, _⟩ := (Mutation.edit_ok computed).2 inserts
    cases impossible
  · obtain ⟨blanks, inserted⟩ := Mutation.edit_ok computed
    have grown : d'.solidLength = d.solidLength + (solid e.text.toList).length :=
      (blanks e rfl).length_solid (splice_on_ok_source spliced)
    rw [grown]
    refine ⟨Nat.le_add_right _ _, fun inserts => ?_⟩
    obtain ⟨_, ⟨⟩, some⟩ := inserted inserts
    exact Nat.lt_add_of_pos_right (List.length_pos_iff.mpr some)

theorem OneByOne.solidLength {ms : List Mutation} {changed : Bool}
    (steps : OneByOne d ms d' changed) :
    d.solidLength ≤ d'.solidLength ∧ ((∃ m ∈ ms, m.Inserts) → d.solidLength < d'.solidLength) := by
  induction steps with
  | nil d => exact ⟨Nat.le_refl _, by simp⟩
  | cons made more ih =>
    obtain ⟨le, lt⟩ := apply_on_ok_solidLength made
    refine ⟨Nat.le_trans le ih.1, ?_⟩
    rintro ⟨m, member, inserts⟩
    rcases List.mem_cons.mp member with rfl | later
    · exact Nat.lt_of_lt_of_le (lt inserts) ih.1
    · exact Nat.lt_of_le_of_lt le (ih.2 ⟨m, later, inserts⟩)

theorem inserts_of_text (className : String) (m : MethodDecl) (dialect : Dialect) :
    (Mutation.insertMember className (m.text dialect)).Inserts := by
  refine ⟨_, _, '(', rfl, ?_, by decide⟩
  simp [MethodDecl.text, MethodDecl.textIndented]

theorem source_ne_of_inserted {name : String} {constructors imports : List String}
    (run : (perform options index className selection).on d =
      (.ok (.inserted name constructors imports), d')) : d'.source ≠ d.source := by
  obtain ⟨c, found, changed, _, _, some, _, steps⟩ := perform_on_inserted run
  obtain ⟨m, member⟩ := List.exists_mem_of_ne_nil found some
  -- One insertion is enough, since no other mutation takes anything out.
  have grown := steps.solidLength.2 ⟨_, List.mem_append_right _ (List.mem_map.mpr
    ⟨_, List.mem_map.mpr ⟨m, member, rfl⟩, rfl⟩), inserts_of_text className _ d.dialect⟩
  intro same
  rw [solidLength, solidLength, same] at grown
  exact Nat.lt_irrefl _ grown

theorem OneByOne.storage {ms : List Mutation} {changed : Bool}
    (steps : OneByOne d ms d' changed) : d' = d ∨ d'.storage = Storage.touched d.storage := by
  have twice : ∀ s : Storage, Storage.touched (Storage.touched s) = Storage.touched s := by
    intro s
    cases s <;> rfl
  induction steps with
  | nil d => exact .inl rfl
  | cons made more ih =>
    rcases apply_on_ok made with ⟨_, rfl⟩ | ⟨_, edited⟩
    · exact ih
    · rcases ih with rfl | later
      · exact .inr edited.storage
      · exact .inr (by rw [later, edited.storage, twice])

theorem isDirty_perform_iff (saved : d.storage = .file false)
    (run : (perform options index className selection).on d = (.ok outcome, d')) :
    d'.isDirty = true ↔ outcome ≠ .nothingToGenerate := by
  cases outcome with
  | nothingToGenerate =>
    rw [perform_on_unchanged run (.inr rfl), isDirty, saved]
    simp
  | inserted name constructors imports =>
    obtain ⟨_, _, _, _, _, _, _, steps⟩ := perform_on_inserted run
    have other := source_ne_of_inserted run
    have touched : d'.storage = .file true := by
      rcases steps.storage with same | touched
      · exact absurd (congrArg Document.source same) other
      · rw [touched, saved]
        rfl
    simp [isDirty, touched]

theorem ofFile_eq_ok (opened : ofFile path source = .ok d) :
    d.source = source ∧ d.dialect = Dialect.ofPath path ∧ parseUnit d.source d.dialect = .ok d.unit ∧
      d.storage = .file false := by
  obtain ⟨reads, _, storage⟩ := ofText_eq_ok opened
  simp only [ofFile, ofText] at opened
  split at opened
  · cases opened
    exact ⟨rfl, rfl, reads, storage⟩
  · cases opened

theorem edited_file (opened : ofFile path source = .ok d)
    (run : (perform options index className selection).on d = (.ok outcome, d'))
    (some : outcome ≠ .nothingToGenerate) :
    source ≠ d'.source ∧ parseUnit d'.source (Dialect.ofPath path) = .ok d'.unit := by
  obtain ⟨rfl, dialect, reads, _⟩ := ofFile_eq_ok opened
  have follows := Act.follows (.perform options index className selection) d
  rw [Act.leaves, run] at follows
  refine ⟨?_, by rw [← dialect, ← follows.dialect]; exact follows.reads reads⟩
  cases outcome with
  | nothingToGenerate => exact absurd rfl some
  | inserted name constructors imports => exact (source_ne_of_inserted run).symm

theorem length_inserted_le {name : String} {constructors imports : List String}
    (run : (perform options index className selection).on d =
      (.ok (.inserted name constructors imports), d')) :
    constructors.length ≤ max 1 (selection.filterMap Candidate.base?).length := by
  obtain ⟨c, found, _, _, generated, _, rfl, _⟩ := perform_on_inserted run
  unfold prototypes at generated
  split at generated
  · rename_i drawn
    cases generated
    obtain ⟨ms, yields, kept⟩ := Options.generate_yields drawn
    have le := yields.length_le
    rw [List.length_map, kept]
    rcases Options.withoutExisting_cases c ms with none | all
    · rw [none]
      exact Nat.zero_le _
    · rwa [all]
  · cases generated

end Document

end CreatorSynth
