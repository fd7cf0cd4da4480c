import CreatorSynth.Document.Shorten
import CreatorSynth.Model.Index
import CreatorSynth.Proofs.Text.Dotted

/-! Short names and the imports they take. A name that a file writes short is read there as the
qualified name again, unless the index knows another class of that simple name in the package of the
file or in one that is imported as a whole. The import leaves the superclass of a class as it is,
unless it binds the name that the class extends. -/
namespace CreatorSynth
open Text

theorem cutPackage?_eq_some {name package top : String} {nested : List String}
    (cuts : cutPackage? name = some (package, top, nested)) :
    name = package ++ "." ++ joinSegments (top :: nested) ∧ DotFree top ∧
      (∀ s ∈ nested, DotFree s) ∧ simpleName (package ++ "." ++ top) = top := by
  unfold cutPackage? at cuts
  have whole := List.takeWhile_append_dropWhile (p := (!namesClass ·)) (l := segments name)
  simp only at cuts
  split at cuts
  · rename_i first others top' nested' front back
    cases cuts
    have clean : ∀ s ∈ (first :: others) ++ top :: nested, DotFree s := by
      rw [← front, ← back, whole]
      exact fun s => dotFree_of_mem_segments
    have clean_top := clean top (by simp)
    refine ⟨?_, clean_top, fun s member => clean s (by simp [member]), ?_⟩
    · rw [← joinSegments_append (List.cons_ne_nil _ _) (List.cons_ne_nil _ _), ← front, ← back,
        whole, joinSegments_segments]
    · exact simpleName_append _ clean_top
  · cases cuts

namespace CompilationUnit

variable {u : CompilationUnit}

/-- The name behind the package of a short one, and what is known of it in the file. -/
structure Shortens (u : CompilationUnit) (name s : String) (needed : Option String)
    (qualified : String) : Prop where
  name_eq : dotted qualified (splitHead s).2 = name
  free : u.bindsElsewhere (splitHead s).1 qualified = false
  clean : DotFree (splitHead s).1
  simple : simpleName qualified = (splitHead s).1
  needed_eq : ∀ path, needed = some path → path = qualified

theorem shortens_of_shortName? {name s : String} {needed : Option String}
    (short : u.shortName? name = some (s, needed)) :
    ∃ qualified, u.Shortens name s needed qualified := by
  unfold shortName? at short
  split at short
  · cases short
  · rename_i package top nested cuts
    obtain ⟨whole, clean, clean', simple⟩ := cutPackage?_eq_some cuts
    obtain ⟨head, rest⟩ := splitHead_joinSegments clean clean'
    simp only at short
    split at short
    · cases short
    · rename_i free
      cases short
      refine ⟨package ++ "." ++ top, ?_, ?_, ?_, ?_, ?_⟩
      · rw [rest, whole]
        cases nested with
        | nil => simp
        | cons second nested =>
          simp only [joinSegments_cons (List.cons_ne_nil second nested), String.append_assoc]
      · rw [head]
        exact eq_false_of_ne_true free
      · rwa [head]
      · rwa [head]
      · intro path same
        split at same
        · cases same
        · exact (Option.some.inj same).symm

theorem endsWithName_shorten (u : CompilationUnit) (name : String) :
    EndsWithName name (u.shorten name) := by
  rw [shorten]
  cases short : u.shortName? name with
  | none => exact .inl rfl
  | some form =>
    obtain ⟨s, needed⟩ := form
    unfold shortName? at short
    split at short
    · cases short
    · rename_i package top nested cuts
      simp only at short
      split at short
      · cases short
      · cases short
        exact .inr ⟨package, (cutPackage?_eq_some cuts).1⟩

theorem name_of_mem_pathsFrom {depth : Nat} {outer : Option String} {id : ClassId}
    {entry : ClassId × String} (member : entry ∈ u.pathsFrom depth outer id) :
    ∃ name, u.nameOf? entry.1 = some name ∧ EndsWithName entry.2 name := by
  induction depth generalizing outer id with
  | zero => cases member
  | succ depth ih =>
    simp only [pathsFrom] at member
    split at member
    · cases member
    · rename_i c known
      rcases List.mem_cons.mp member with rfl | member
      · refine ⟨c.name, by rw [nameOf?, known, Option.map_some], ?_⟩
        cases outer with
        | none => exact .inl rfl
        | some around => exact .inr ⟨around, rfl⟩
      · obtain ⟨inner, _, member⟩ := List.mem_flatMap.mp member
        exact ih member

theorem name_of_path {simple : String} {entry : ClassId × String} (clean : DotFree simple)
    (member : entry ∈ u.classPaths) (path : entry.2 = simple) :
    u.nameOf? entry.1 = some simple := by
  obtain ⟨id, _, member⟩ := List.mem_flatMap.mp member
  obtain ⟨name, known, same | ⟨around, same⟩⟩ := name_of_mem_pathsFrom member
  · rw [known, ← same, path]
  · rw [← path, same] at clean
    exact absurd clean (not_dotFree_append _ _)

theorem name_of_findClass? {simple : String} {id : ClassId} (clean : DotFree simple)
    (found : u.findClass? simple = some id) :
    u.nameOf? id = some simple ∧ ∃ path, (id, path) ∈ u.classPaths := by
  obtain ⟨entry, search, rfl⟩ := Option.map_eq_some_iff.mp found
  have named : entry ∈ u.classPaths ∧ u.nameOf? entry.1 = some simple := by
    rcases Option.or_eq_some_iff.mp search with byPath | ⟨_, byName⟩
    · have member := List.mem_of_find?_eq_some byPath
      exact ⟨member, name_of_path clean member (by simpa using List.find?_some byPath)⟩
    · exact ⟨List.mem_of_find?_eq_some byName, by simpa using List.find?_some byName⟩
  exact ⟨named.2, entry.2, named.1⟩

theorem findClass?_eq_none_of_path {simple : String} (clean : DotFree simple)
    (missing : (u.findClass? simple).bind u.pathOf? = none) : u.findClass? simple = none := by
  cases found : u.findClass? simple with
  | none => rfl
  | some id =>
    obtain ⟨_, path, member⟩ := name_of_findClass? clean found
    rw [found, Option.bind_some, pathOf?, Option.map_eq_none_iff, List.find?_eq_none] at missing
    exact absurd (beq_self_eq_true id) (missing _ member)

theorem exists_named_of_path {simple path : String} (clean : DotFree simple)
    (found : (u.findClass? simple).bind u.pathOf? = some path) :
    ∃ id, (id, path) ∈ u.classPaths ∧ u.nameOf? id = some simple := by
  obtain ⟨id, listed, known⟩ := Option.bind_eq_some_iff.mp found
  obtain ⟨entry, search, rfl⟩ := Option.map_eq_some_iff.mp known
  have same : entry.1 = id := by simpa using List.find?_some search
  refine ⟨entry.1, List.mem_of_find?_eq_some search, ?_⟩
  rw [same]
  exact (name_of_findClass? clean listed).1

theorem qualify_of_free {simple qualified path : String} (clean : DotFree simple)
    (free : u.bindsElsewhere simple qualified = false)
    (found : (u.findClass? simple).bind u.pathOf? = some path) : u.qualify path = qualified := by
  obtain ⟨id, member, named⟩ := exists_named_of_path clean found
  have others := (Bool.or_eq_false_iff.mp free).2
  have here := List.any_eq_false.mp others (id, path) member
  simpa [named] using here

theorem path_of_free {simple qualified : String} {i : Import}
    (free : u.bindsElsewhere simple qualified = false) (member : i ∈ u.imports)
    (bound : i.bound? = some simple) : i.path = qualified := by
  have others := (Bool.or_eq_false_iff.mp free).1
  have here := List.any_eq_false.mp others i member
  simpa [bound] using here

/-- The file with the import that a short name takes, wherever it stands among the others. -/
inductive Adds (u : CompilationUnit) : Option String → CompilationUnit → Prop
  | nothing : Adds u none u
  | single {path : String} {span : Span} {before after : List Import}
      (among : u.imports = before ++ after) :
      Adds u (some path) { u with imports := before ++ ⟨path, false, false, span⟩ :: after }

theorem pathsFrom_imports {imports : List Import} (depth : Nat) (outer : Option String)
    (id : ClassId) :
    { u with imports := imports }.pathsFrom depth outer id = u.pathsFrom depth outer id := by
  induction depth generalizing outer id with
  | zero => rfl
  | succ depth ih =>
    have same : { u with imports := imports }.class? id = u.class? id := rfl
    simp only [pathsFrom, same]
    split
    · rfl
    · rename_i c known
      have inner : { u with imports := imports }.pathsFrom depth = u.pathsFrom depth :=
        funext fun outer => funext fun id => ih outer id
      rw [inner]

namespace Adds

variable {needed : Option String} {u' : CompilationUnit}

theorem classPaths (adds : u.Adds needed u') : u'.classPaths = u.classPaths := by
  cases adds with
  | nothing => rfl
  | single among =>
    exact congrArg u.topLevel.flatMap (funext fun id => pathsFrom_imports _ _ id)

theorem findClass? (adds : u.Adds needed u') (name : String) :
    u'.findClass? name = u.findClass? name := by
  have names : u'.nameOf? = u.nameOf? := by cases adds <;> rfl
  rw [CompilationUnit.findClass?, adds.classPaths, names, CompilationUnit.findClass?]

theorem pathOf? (adds : u.Adds needed u') (id : ClassId) : u'.pathOf? id = u.pathOf? id := by
  rw [CompilationUnit.pathOf?, adds.classPaths, CompilationUnit.pathOf?]

theorem qualify (adds : u.Adds needed u') (path : String) : u'.qualify path = u.qualify path := by
  cases adds <;> rfl

theorem mem_imports {i : Import} (adds : u.Adds needed u') (member : i ∈ u'.imports) :
    i ∈ u.imports ∨ needed = some i.path := by
  cases adds with
  | nothing => exact .inl member
  | single among =>
    rw [among, List.mem_append]
    rcases List.mem_append.mp member with inside | inside
    · exact .inl (.inl inside)
    · cases inside with
      | head => exact .inr rfl
      | tail _ inside => exact .inl (.inr inside)

theorem exists_bound {path : String} (adds : u.Adds (some path) u') :
    ∃ i ∈ u'.imports, i.bound? = some (simpleName path) := by
  cases adds with
  | @single _ span before after among =>
    exact ⟨⟨path, false, false, span⟩, List.mem_append_right _ List.mem_cons_self, rfl⟩

end Adds

/-- What the index knows the simple name as, in the package of the file and in those imported as a
whole. -/
def indexed? (u : CompilationUnit) (index : ClassIndex) (simple : String) : Option String :=
  let packages := u.package.toList ++
    (u.imports.filter fun i => !i.isStatic && i.onDemand).map (·.path)
  (packages.map (· ++ "." ++ simple)).find? (index.lookup? · |>.isSome)

end CompilationUnit

open CompilationUnit

/-- In the file with its import a short name means what the qualified one does, or nothing. Without
an import, a class of the file or one imported by its name, this takes that the index knows no other
class by the package of the file or an import on demand. -/
theorem short_name_keeps_meaning {index : ClassIndex} {u u' : CompilationUnit}
    {name s : String} {needed : Option String} {typeVariables : List String}
    (short : u.shortName? name = some (s, needed)) (adds : u.Adds needed u')
    (alone : needed = none → u.findClass? (splitHead s).1 = none →
      (∀ i ∈ u.imports, i.bound? ≠ some (splitHead s).1) →
      ∀ other, u.indexed? index (splitHead s).1 = some other →
        dotted other (splitHead s).2 = name) :
    (Scope.mk index u' typeVariables).qualifyName s = name ∨
      (Scope.mk index u' typeVariables).qualifyName s = s := by
  obtain ⟨qualified, known⟩ := shortens_of_shortName? short
  have whole := known.name_eq
  unfold Scope.qualifyName
  simp only
  split
  · exact .inr rfl
  split
  · exact .inr rfl
  split
  · -- a class of the file
    rename_i path found
    rw [adds.findClass?, funext adds.pathOf?] at found
    exact .inl (by rw [adds.qualify, qualify_of_free known.clean known.free found, whole])
  rename_i missing
  rw [adds.findClass?, funext adds.pathOf?] at missing
  split
  · -- an import of one type, of the file or the one added
    rename_i i found
    have bound : i.bound? = some (splitHead s).1 := by simpa using List.find?_some found
    have path : i.path = qualified := by
      rcases adds.mem_imports (List.mem_of_find?_eq_some found) with member | added
      · exact path_of_free known.free member bound
      · exact known.needed_eq _ added
    exact .inl (by rw [path, whole])
  rename_i unbound
  split
  · -- a class that the index knows
    rename_i other found
    cases adds with
    | nothing =>
      refine .inl (alone rfl (findClass?_eq_none_of_path known.clean missing) ?_ other found)
      exact fun i member => by simpa using List.find?_eq_none.mp unbound i member
    | @single path span before after among =>
      obtain ⟨i, member, bound⟩ := (Adds.single among).exists_bound
      have simple : simpleName path = (splitHead s).1 := by
        rw [known.needed_eq _ rfl, known.simple]
      refine absurd ?_ (List.find?_eq_none.mp unbound i member)
      rw [bound, simple, beq_self_eq_true]
  · exact .inr rfl

/-- A file in package `p` that imports all of `q`. -/
def starUnit : CompilationUnit :=
  ⟨some "p", [⟨"q", false, true, ⟨11, 22⟩⟩], 22, [], []⟩

/-- A file with the class `Foo` in a package. -/
def fooUnit (package : String) : CompilationUnit :=
  ⟨some package, [], 10,
    [⟨.ordinary, "Foo", .empty, [], none, [], [], [], none, ⟨21, 23⟩, ⟨11, 23⟩⟩], [0]⟩

theorem starUnit_alone :
    let index := ClassIndex.ofUnits [fooUnit "q", fooUnit "p"]
    starUnit.shortName? "p.Foo" = some ("Foo", none) ∧
      starUnit.indexed? index "Foo" = some "p.Foo" ∧
      ((Scope.mk index starUnit []).qualifyName "Foo" = "p.Foo" ∨
        (Scope.mk index starUnit []).qualifyName "Foo" = "Foo") := by
  intro index
  have short : starUnit.shortName? "p.Foo" = some ("Foo", none) := by decide +kernel
  have known : starUnit.indexed? index "Foo" = some "p.Foo" := by decide +kernel
  have head : splitHead "Foo" = ("Foo", none) := by decide +kernel
  refine ⟨short, known, short_name_keeps_meaning short .nothing ?_⟩
  intro _ _ _ other found
  rw [head, known] at found
  cases found
  rw [head, dotted]

/-- A class of the package that the index does not know is no class of it to the qualifier, which
goes on to the imports on demand. The file takes the name for its own all the same. -/
theorem starUnit_shadowed :
    let scope := Scope.mk (ClassIndex.ofUnits [fooUnit "q"]) starUnit []
    starUnit.shortName? "p.Foo" = some ("Foo", none) ∧ scope.qualifyName "Foo" = "q.Foo" ∧
      scope.qualifyName "Foo" ≠ "p.Foo" ∧ scope.qualifyName "Foo" ≠ "Foo" := by
  decide +kernel

section Superclass

variable {index : ClassIndex} {u u' : CompilationUnit} {path : String}

theorem qualifiedCandidates_of_adds {name : String} (adds : u.Adds (some path) u')
    (other : simpleName path ≠ (splitHead name).1) :
    ClassIndex.qualifiedCandidates u' name = ClassIndex.qualifiedCandidates u name := by
  cases adds with
  | @single _ span before after among =>
    have unbound : ((⟨path, false, false, span⟩ : Import).bound? == some (splitHead name).1) =
        false := by
      simpa [Import.bound?] using other
    simp [ClassIndex.qualifiedCandidates, among, unbound]

/-- An import that does not bind what a class extends leaves its superclass, if that is a class of
another file. -/
theorem resolveType_of_adds {inside : ClassId} {type : TypeRef} (adds : u.Adds (some path) u')
    (other : simpleName path ≠ (splitHead type.name).1)
    (outside : (u.findClass? type.name).filter (· != inside) = none) :
    index.resolveType u' inside type = index.resolveType u inside type := by
  unfold ClassIndex.resolveType
  rw [adds.findClass?, outside, qualifiedCandidates_of_adds adds other]
  rfl

/-- A file whose class extends `Base` of its own package. -/
def childUnit (imports : List Import) : CompilationUnit :=
  ⟨some "p", imports, 10,
    [⟨.ordinary, "Child", .empty, [], some (.simple "Base"), [], [], [], none, ⟨37, 40⟩, ⟨12, 40⟩⟩],
    [0]⟩

def baseUnit (package : String) : CompilationUnit :=
  ⟨some package, [], 10,
    [⟨.ordinary, "Base", .empty, [], none, [], [], [], none, ⟨22, 24⟩, ⟨11, 24⟩⟩], [0]⟩

/-- The name of the superclass counts as free in the file, and the import of another class of that
name binds it. -/
theorem childUnit_captured :
    let index := ClassIndex.ofUnits [baseUnit "p", baseUnit "q"]
    let added : Import := ⟨"q.Base", false, false, ⟨10, 24⟩⟩
    (childUnit []).shortName? "q.Base" = some ("Base", some "q.Base") ∧
      ((index.superclassOf? (childUnit []) 0).map (·.qualifiedName)) = some "p.Base" ∧
      ((index.superclassOf? (childUnit [added]) 0).map (·.qualifiedName)) = some "q.Base" := by
  decide +kernel

end Superclass

end CreatorSynth
