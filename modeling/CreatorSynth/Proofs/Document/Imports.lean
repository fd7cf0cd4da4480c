import CreatorSynth.Document.Edit
import CreatorSynth.Proofs.Document.ShortNames

/-! The imports that short names take. Whether a name is free is seen from the file as it stands, so
each import can be added to it. Of those that are asked for together, two that end in the same simple
name conflict. -/
namespace CreatorSynth
open Text

namespace CompilationUnit

variable {u v : CompilationUnit} {name path : String} {dialect : Dialect}

/-- The class of a path behind a package, which has to be imported to be named short, and can be. -/
structure Importable (u : CompilationUnit) (package top : String) : Prop where
  clean : DotFree top
  free : u.bindsElsewhere top (package ++ "." ++ top) = false
  foreign : u.package ≠ some package
  builtIn : package ≠ "java.lang"
  unknown : u.hasImport (package ++ "." ++ top) = false

theorem importable_of_importFor? (asks : u.importFor? name = some path) :
    ∃ package top, path = package ++ "." ++ top ∧ u.Importable package top := by
  obtain ⟨⟨short, needed⟩, shortened, rfl⟩ := Option.bind_eq_some_iff.mp asks
  unfold shortName? at shortened
  split at shortened
  · cases shortened
  · rename_i package top nested cuts
    simp only at shortened
    split at shortened
    · cases shortened
    · rename_i free
      rw [Option.some.injEq, Prod.mk.injEq] at shortened
      have needed := shortened.2
      split at needed
      · cases needed
      · rename_i unknown
        cases needed
        simp only [Bool.or_eq_true, beq_iff_eq, not_or, Bool.not_eq_true] at unknown
        exact ⟨package, top, rfl, (cutPackage?_eq_some cuts).2.1, eq_false_of_ne_true free,
          unknown.1.1, unknown.1.2, unknown.2⟩

theorem mem_classPaths_of_topLevel {id : ClassId} {simple : String} (listed : id ∈ u.topLevel)
    (named : u.nameOf? id = some simple) : (id, simple) ∈ u.classPaths := by
  obtain ⟨c, known, rfl⟩ := Option.map_eq_some_iff.mp named
  have below : id < u.classes.length := (List.getElem?_eq_some_iff.mp known).1
  refine List.mem_flatMap.mpr ⟨id, listed, ?_⟩
  obtain ⟨depth, length⟩ := Nat.exists_eq_succ_of_ne_zero (Nat.ne_zero_of_lt below)
  rw [length]
  simp only [pathsFrom, known]
  exact List.mem_cons_self

theorem boundTo?_eq_none_iff {simple : String} :
    u.boundTo? simple = none ↔ (¬ ∃ i ∈ u.imports, i.bound? = some simple) ∧
      ¬ ∃ id ∈ u.topLevel, u.nameOf? id = some simple := by
  rw [boundTo?]
  cases search : u.imports.find? (·.bound? == some simple) with
  | some found =>
    refine iff_of_false nofun fun both => both.1 ⟨found, List.mem_of_find?_eq_some search, ?_⟩
    simpa using List.find?_some search
  | none =>
    have unbound : ¬ ∃ i ∈ u.imports, i.bound? = some simple := by simpa using search
    rw [and_iff_right unbound]
    simp

theorem sees_append {package top : String} (clean : DotFree top) :
    u.sees (package ++ "." ++ top) =
      (u.hasImport (package ++ "." ++ top) || u.package == some package ||
        package == "java.lang") := by
  rw [sees, splitLast?_append package clean]
  rfl

/-- An import conflicts if the file does not see the class, but something else of its name. -/
theorem conflicts_iff :
    (∃ existing, u.importEdit path dialect = .error (.importConflict path existing)) ↔
      u.sees path = false ∧ u.boundTo? (simpleName path) ≠ none := by
  rw [importEdit]
  cases u.sees path with
  | true => simp
  | false =>
    cases u.boundTo? (simpleName path) with
    | none => simp
    | some existing => simp

namespace Importable

variable {package top : String}

theorem unbound (fits : u.Importable package top) : u.boundTo? top = none := by
  refine boundTo?_eq_none_iff.mpr ⟨?_, ?_⟩
  · rintro ⟨i, member, bound⟩
    have same := path_of_free fits.free member bound
    have covered : i.covers (package ++ "." ++ top) = true := by
      rw [Import.bound?] at bound
      split at bound
      · cases bound
      · rename_i single
        simp only [Bool.or_eq_true, not_or, Bool.not_eq_true] at single
        simp [Import.covers, single.1, same]
    exact Bool.false_ne_true (fits.unknown.symm.trans (List.any_eq_true.mpr ⟨i, member, covered⟩))
  · rintro ⟨id, listed, named⟩
    have others := (Bool.or_eq_false_iff.mp fits.free).2
    have here := List.any_eq_false.mp others _ (mem_classPaths_of_topLevel listed named)
    have same : u.qualify top = package ++ "." ++ top := by simpa [named] using here
    rw [CompilationUnit.qualify] at same
    split at same
    · rename_i own known
      have parts := congrArg splitLast? same
      rw [splitLast?_append own fits.clean, splitLast?_append package fits.clean] at parts
      cases parts
      exact fits.foreign known
    · exact not_dotFree_append package top (same ▸ fits.clean)

end Importable

/-- The file with several imports of one type, the last one added first. -/
inductive AddsEach (u : CompilationUnit) : List String → CompilationUnit → Prop
  | nothing : AddsEach u [] u
  | next {paths : List String} {path : String} {v w : CompilationUnit} (earlier : AddsEach u paths v)
      (adds : v.Adds (some path) w) : AddsEach u (path :: paths) w

namespace Adds

theorem package_eq (adds : u.Adds (some path) v) : v.package = u.package := by
  cases adds with
  | single => rfl

theorem topLevel_eq (adds : u.Adds (some path) v) : v.topLevel = u.topLevel := by
  cases adds with
  | single => rfl

theorem nameOf?_eq (adds : u.Adds (some path) v) : v.nameOf? = u.nameOf? := by
  cases adds with
  | single => rfl

theorem hasImport_iff (adds : u.Adds (some path) v) (other : String) :
    v.hasImport other = true ↔ path = other ∨ u.hasImport other = true := by
  cases adds with
  | single among =>
    simp only [hasImport, among, List.any_append, List.any_cons, Import.covers, Bool.or_eq_true,
      Bool.not_false, Bool.true_and, Bool.false_and, Bool.or_false, beq_iff_eq]
    exact or_left_comm

theorem bound_iff (adds : u.Adds (some path) v) (simple : String) :
    (∃ i ∈ v.imports, i.bound? = some simple) ↔
      simpleName path = simple ∨ ∃ i ∈ u.imports, i.bound? = some simple := by
  cases adds with
  | @single _ span before after among =>
    have own : (⟨path, false, false, span⟩ : Import).bound? = some (simpleName path) := rfl
    simp only [among, List.mem_append, List.mem_cons, or_and_right, exists_or, exists_eq_left, own,
      Option.some.injEq]
    exact or_left_comm

end Adds

namespace AddsEach

variable {paths : List String}

theorem stays (adds : u.AddsEach paths v) :
    v.package = u.package ∧ v.topLevel = u.topLevel ∧ v.nameOf? = u.nameOf? := by
  induction adds with
  | nothing => exact ⟨rfl, rfl, rfl⟩
  | next _ adds ih =>
    rw [adds.package_eq, adds.topLevel_eq, adds.nameOf?_eq]
    exact ih

theorem hasImport_iff (adds : u.AddsEach paths v) (other : String) :
    v.hasImport other = true ↔ other ∈ paths ∨ u.hasImport other = true := by
  induction adds with
  | nothing => simp
  | next _ adds ih => rw [adds.hasImport_iff, ih, List.mem_cons, or_assoc, eq_comm]

theorem bound_iff (adds : u.AddsEach paths v) (simple : String) :
    (∃ i ∈ v.imports, i.bound? = some simple) ↔
      (∃ path ∈ paths, simpleName path = simple) ∨ ∃ i ∈ u.imports, i.bound? = some simple := by
  induction adds with
  | nothing => simp
  | next _ adds ih =>
    simp only [adds.bound_iff, ih, List.mem_cons, or_and_right, exists_or, exists_eq_left, or_assoc]

end AddsEach

end CompilationUnit

open CompilationUnit

/-- In a file that some imports have been added to, the import a name takes by the file as it was
conflicts just if another of them ends in the same simple name. -/
theorem importEdit_conflicts_iff {u v : CompilationUnit} {name path : String} {paths : List String}
    {dialect : Dialect} (asks : u.importFor? name = some path) (adds : u.AddsEach paths v) :
    (∃ existing, v.importEdit path dialect = .error (.importConflict path existing)) ↔
      path ∉ paths ∧ ∃ other ∈ paths, simpleName other = simpleName path := by
  obtain ⟨package, top, rfl, fits⟩ := importable_of_importFor? asks
  obtain ⟨unbound, undeclared⟩ := boundTo?_eq_none_iff.mp fits.unbound
  obtain ⟨packages, classes, names⟩ := adds.stays
  have seen : v.sees (package ++ "." ++ top) = false ↔ package ++ "." ++ top ∉ paths := by
    rw [sees_append fits.clean, ← Bool.not_eq_true, packages]
    simp only [Bool.or_eq_true, adds.hasImport_iff, fits.unknown, fits.foreign, fits.builtIn,
      beq_iff_eq, Bool.false_eq_true, or_false]
  rw [conflicts_iff, seen, simpleName_append package fits.clean, ne_eq, boundTo?_eq_none_iff,
    classes, names]
  rw [and_iff_left undeclared, Classical.not_not, adds.bound_iff, or_iff_left unbound]

/-- A constructor with parameters of two classes that have one simple name. -/
def fooPairCreator : MethodDecl :=
  ⟨⟨["public"], []⟩, [], none, "Child", [.ofType "x" (.simple "a.Foo"), .ofType "y" (.simple "b.Foo")],
    [], some ⟨[], Span.none⟩, none, Span.none⟩

/-- Both count as free in a file that knows neither, and the second import meets the first one. -/
theorem fooPairCreator_conflicts :
    let first : Import := ⟨"a.Foo", false, false, ⟨10, 23⟩⟩
    (fooPairCreator.shortenReferences (childUnit [])).2 = ["a.Foo", "b.Foo"] ∧
      ∃ existing, (childUnit [first]).importEdit "b.Foo" .java =
        .error (.importConflict "b.Foo" existing) := by
  intro first
  have asks : (childUnit []).importFor? "b.Foo" = some "b.Foo" := by decide +kernel
  have among : (childUnit []).imports = [] ++ [] := rfl
  have adds : (childUnit []).AddsEach ["a.Foo"] (childUnit [first]) := .next .nothing (.single among)
  refine ⟨by decide +kernel, (importEdit_conflicts_iff asks adds).mpr ⟨by decide, "a.Foo", ?_⟩⟩
  exact ⟨List.mem_cons_self, by decide +kernel⟩

end CreatorSynth
