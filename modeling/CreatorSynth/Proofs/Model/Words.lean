import CreatorSynth.Proofs.Model.Index
import CreatorSynth.Proofs.Parser.Words

/-! What a description of a class names: the class, its fields and the parameters of the constructors
of its superclass are called by words, since they come from sources that were read, or from the
library, whose parameters have no names. -/
namespace CreatorSynth
open ClassIndex

/-- The parameters that have a name are called by words. -/
def BaseConstructor.Worded (b : BaseConstructor) : Prop :=
  ∀ p ∈ b.params, ∀ name ∈ p.name, IsWord name

def Candidate.Worded : Candidate → Prop
  | field f => IsWord f.name
  | base b => b.Worded

theorem BaseConstructor.Worded.mapTypes {b : BaseConstructor} (worded : b.Worded)
    (f : TypeRef → TypeRef) : (b.mapTypes f).Worded :=
  List.forall_mem_map.mpr worded

theorem BaseConstructor.worded_ofDecl {m : MethodDecl} (words : ∀ p ∈ m.params, IsWord p.name) :
    (ofDecl m).Worded :=
  List.forall_mem_map.mpr fun p member _ same => Option.some.inj same ▸ words p member

namespace Superclass

variable {s s' : Option Superclass} {default : Superclass}

def Worded (s : Superclass) : Prop :=
  ∀ b ∈ s.constructors, b.Worded

theorem worded_or (first : ∀ t ∈ s, t.Worded) (second : ∀ t ∈ s', t.Worded) :
    ∀ t ∈ s.or s', t.Worded := by
  cases s with
  | none => exact second
  | some t => exact first

theorem worded_getD (each : ∀ t ∈ s, t.Worded) (other : default.Worded) :
    (s.getD default).Worded := by
  cases s with
  | none => exact other
  | some t => exact each t rfl

end Superclass

theorem Library.worded_of_lookup? {name : String} {s : Superclass} (known : lookup? name = some s) :
    s.Worded := by
  have unnamed : ∀ entry ∈ entries, ∀ b ∈ entry.2.2, ∀ p ∈ b.params, p.name = none := by decide
  obtain ⟨found, listed, rfl⟩ := Option.map_eq_some_iff.mp known
  obtain ⟨before, after, all, _⟩ := List.lookup_eq_some_iff.mp listed
  have among : (qualified name, found) ∈ entries := by simp [all]
  intro b member p inside name' same
  rw [unnamed _ among b member p inside] at same
  cases same

section Sources

variable {index : ClassIndex} {unit : CompilationUnit} {id : ClassId} {s : Superclass}

theorem CompilationUnit.Worded.decl (worded : unit.Worded) {d : ClassDecl}
    (found : unit.class? id = some d) : d.Worded :=
  worded d (List.mem_of_getElem? found)

theorem worded_superclassFromSource {decl : ClassDecl} (worded : decl.Worded) (path : String)
    (type : TypeRef) : (index.superclassFromSource unit decl path type).Worded := by
  refine List.forall_mem_map.mpr fun m member => ?_
  obtain ⟨given, inside, same⟩ := List.mem_filterMap.mp member
  have words := (worded.members given inside).2 m same
  exact (BaseConstructor.worded_ofDecl words).mapTypes _

theorem ClassIndex.mem_of_mem_entries {units : List CompilationUnit} {e : Entry}
    (entered : e ∈ (ofUnits units).entries) : e.unit ∈ units := by
  rw [entries_ofUnits] at entered
  obtain ⟨u, given, listed⟩ := List.mem_flatMap.mp entered
  obtain ⟨found, _, rfl⟩ := List.mem_map.mp listed
  exact given

variable (indexed : ∀ e ∈ index.entries, e.unit.Worded)
include indexed

theorem worded_superclassAt {e : Entry} {type : TypeRef} (entered : e ∈ index.entries)
    (known : index.superclassAt e type = some s) : s.Worded := by
  obtain ⟨decl, found, rfl⟩ := Option.map_eq_some_iff.mp known
  exact worded_superclassFromSource ((indexed e entered).decl found) _ type

theorem worded_resolveType (worded : unit.Worded) (type : TypeRef) :
    (index.resolveType unit id type).Worded := by
  unfold resolveType
  refine Superclass.worded_getD (Superclass.worded_or (Superclass.worded_or
    (Superclass.worded_or ?inFile ?inIndex) ?inLibrary) ?bySimpleName) nofun
  case inFile =>
    intro t found
    obtain ⟨other, _, found⟩ := Option.bind_eq_some_iff.mp found
    obtain ⟨path, _, found⟩ := Option.bind_eq_some_iff.mp found
    obtain ⟨decl, declared, rfl⟩ := Option.map_eq_some_iff.mp found
    exact worded_superclassFromSource (worded.decl declared) path type
  case inIndex =>
    intro t found
    obtain ⟨e, entered, found⟩ := Option.bind_eq_some_iff.mp found
    obtain ⟨name, _, looked⟩ := List.exists_of_findSome?_eq_some entered
    exact worded_superclassAt indexed (List.mem_reverse.mp (List.mem_of_find?_eq_some looked)) found
  case inLibrary =>
    intro t found
    split at found
    · obtain ⟨base, known, rfl⟩ := Option.map_eq_some_iff.mp found
      have named : base.Worded := Library.worded_of_lookup? known
      exact named
    · cases found
  case bySimpleName =>
    intro t found
    obtain ⟨e, entered, found⟩ := Option.bind_eq_some_iff.mp found
    have only := lookupSimple?_eq_some_iff.mp entered
    have among := List.mem_of_mem_filter (only ▸ List.mem_singleton_self e)
    exact worded_superclassAt indexed among found

theorem worded_superclassOf? (worded : unit.Worded) (known : index.superclassOf? unit id = some s) :
    s.Worded := by
  obtain ⟨decl, _, found⟩ := Option.bind_eq_some_iff.mp known
  split at found
  · obtain ⟨base, listed, rfl⟩ := Option.map_eq_some_iff.mp found
    have named : base.Worded := Library.worded_of_lookup? listed
    exact named
  · split at found
    · cases found
      exact worded_resolveType indexed worded _
    · exact Library.worded_of_lookup? found
  all_goals cases found

/-- A class found in sources that were read, and whatever it offers to a constructor, are called by
words. -/
theorem worded_describe? (worded : unit.Worded) {c : ClassDescriptor}
    (described : index.describe? unit id = some c) :
    IsWord c.name ∧ ∀ m ∈ c.members, m.Worded := by
  obtain ⟨decl, found, rfl⟩ := Option.map_eq_some_iff.mp described
  have declared := worded.decl found
  refine ⟨declared.name, fun m member => ?_⟩
  rcases List.mem_append.mp member with base | field
  · obtain ⟨b, offered, rfl⟩ := List.mem_map.mp base
    cases known : index.superclassOf? unit id with
    | none =>
      rw [known] at offered
      cases offered
    | some s =>
      rw [known] at offered
      have among : b ∈ s.constructors := by
        rw [Option.map_some, Option.getD_some, accessibleConstructors] at offered
        split at offered
        · cases offered
        · exact List.mem_of_mem_filter offered
      exact worded_superclassOf? indexed worded known b among
  · obtain ⟨f, offered, rfl⟩ := List.mem_map.mp field
    obtain ⟨d, among, rfl⟩ := List.mem_map.mp (List.mem_of_mem_filter offered)
    obtain ⟨m, inside, same⟩ := List.mem_filterMap.mp among
    exact (declared.members m inside).1 d same

end Sources

end CreatorSynth
