import Mathlib.Data.List.Forall2
import CreatorSynth.Parser.Classes
import CreatorSynth.Proofs.Document.ShortNames
import CreatorSynth.Proofs.Model.Substitution

/-! What the names in an inherited constructor are made to mean in any file. The names of classes
are looked up among all classes of the file, wherever they are nested, before its imports are. So a
name keeps the meaning that an import gives it just as long as no class of the file, not even one
that is out of its reach, is called so. -/
namespace CreatorSynth
open Text

mutual
theorem TypeRef.names_rename (f : String → String) :
    (t : TypeRef) → (t.rename f).names = t.names.map f
  | ⟨name, args, dims⟩ => by
    rw [TypeRef.rename, TypeRef.names, TypeRef.names, TypeArg.namesOfAll_renameAll f args,
      List.map_cons]

theorem TypeArg.names_rename (f : String → String) :
    (a : TypeArg) → (a.rename f).names = a.names.map f
  | .type t | .extending t | .superOf t => TypeRef.names_rename f t
  | .any => rfl

theorem TypeArg.namesOfAll_renameAll (f : String → String) :
    (args : List TypeArg) →
      TypeArg.namesOfAll (TypeArg.renameAll f args) = (TypeArg.namesOfAll args).map f
  | [] => rfl
  | a :: as => by
    rw [TypeArg.renameAll, TypeArg.namesOfAll, TypeArg.namesOfAll, TypeArg.names_rename f a,
      TypeArg.namesOfAll_renameAll f as, List.map_append]
end

/-- The names in all types of the constructor. -/
def BaseConstructor.names (c : BaseConstructor) : List String :=
  c.types.flatMap (·.names)

theorem BaseConstructor.names_mapTypes (f : String → String) (c : BaseConstructor) :
    (c.mapTypes (·.rename f)).names = c.names.map f := by
  rw [names, types_mapTypes, List.flatMap_map, names, List.map_flatMap]
  exact congrArg c.types.flatMap (funext (TypeRef.names_rename f))

namespace CompilationUnit

variable {u : CompilationUnit} {name : String}

/-- No class of the file is called so. -/
def CallsNone (u : CompilationUnit) (name : String) : Prop :=
  ∀ entry ∈ u.classPaths, u.nameOf? entry.1 ≠ some name

theorem callsNone_of_findClass? (missing : u.findClass? name = none) : u.CallsNone name := by
  have byName := (Option.or_eq_none_iff.mp (Option.map_eq_none_iff.mp missing)).2
  intro entry member same
  simpa [same] using List.find?_eq_none.mp byName entry member

end CompilationUnit

namespace Scope

variable {s : Scope} {name : String} {i : Import}

theorem qualifyName_eq (simple : DotFree name) (reference : name ∉ primitiveTypes)
    (free : name ∉ s.typeVariables)
    (imported : s.unit.imports.find? (·.bound? == some name) = some i) :
    s.qualifyName name =
      (((s.unit.findClass? name).bind s.unit.pathOf?).map s.unit.qualify).getD i.path := by
  have other : (primitiveTypes.contains name || s.typeVariables.contains name) = false := by
    simp [reference, free]
  unfold qualifyName
  rw [splitHead_of_dotFree simple]
  simp only [other, Bool.false_eq_true, ↓reduceIte, Option.isSome_none, Bool.false_and, imported]
  split
  · rename_i path found
    rw [found]
    rfl
  · rename_i missing
    rw [missing]
    rfl

/-- A name keeps the meaning that an import gives it, or means a class of the file that is called
so. -/
theorem qualifyName_imported (simple : DotFree name) (reference : name ∉ primitiveTypes)
    (free : name ∉ s.typeVariables)
    (imported : s.unit.imports.find? (·.bound? == some name) = some i) :
    s.unit.CallsNone name ∧ s.qualifyName name = i.path ∨
      ∃ entry ∈ s.unit.classPaths, s.unit.nameOf? entry.1 = some name ∧
        s.qualifyName name = s.unit.qualify entry.2 := by
  rw [qualifyName_eq simple reference free imported]
  cases found : (s.unit.findClass? name).bind s.unit.pathOf? with
  | none =>
    have missing := CompilationUnit.findClass?_eq_none_of_path simple found
    exact .inl ⟨CompilationUnit.callsNone_of_findClass? missing, rfl⟩
  | some path =>
    obtain ⟨id, member, named⟩ := CompilationUnit.exists_named_of_path simple found
    exact .inr ⟨(id, path), member, named, rfl⟩

end Scope

namespace ClassIndex

/-- Every name in an inherited constructor is rewritten by itself. Where it has its meaning from an
import, it keeps that just if no class of the file is called so, and else means such a class. -/
theorem names_superclassFromSource (index : ClassIndex) (unit : CompilationUnit) (decl : ClassDecl)
    (path : String) (type : TypeRef) :
    List.Forall₂ (fun (m : MethodDecl) (b : BaseConstructor) => ∃ f : String → String,
        b.names = (BaseConstructor.ofDecl m).names.map f ∧
          ∀ name i, DotFree name → name ∉ primitiveTypes →
            name ∉ (decl.typeParams ++ m.typeParams).map (·.name) →
            unit.imports.find? (·.bound? == some name) = some i →
            unit.CallsNone name ∧ f name = i.path ∨
              ∃ entry ∈ unit.classPaths, unit.nameOf? entry.1 = some name ∧
                f name = unit.qualify entry.2)
      decl.constructors (index.superclassFromSource unit decl path type).constructors := by
  refine List.forall₂_map_right_iff.mpr (List.forall₂_same.mpr fun m _ => ?_)
  let scope := ((Scope.mk index unit []).withParams decl.typeParams).withParams m.typeParams
  refine ⟨scope.qualifyName, BaseConstructor.names_mapTypes _ _, ?_⟩
  intro name i simple reference free imported
  have unbound : name ∉ scope.typeVariables := by
    simpa [scope, Scope.withParams] using free
  exact scope.qualifyName_imported simple reference unbound imported

/-- The class that the import binds the name to is not meant, but one nested in another class. -/
theorem nested_class_captures_import :
    ((parseUnit "package p; import q.Options; class Base \x7b Base(Options o) \x7b\x7d \x7d
      class Other \x7b class Options \x7b\x7d \x7d" .java).toOption.bind fun unit =>
        (unit.class? 0).map fun decl => (ClassIndex.empty.superclassFromSource unit decl decl.name
          (.simple decl.name)).constructors.map (·.names)) = some [["p.Other.Options"]] := by
  decide +kernel

end ClassIndex

end CreatorSynth
