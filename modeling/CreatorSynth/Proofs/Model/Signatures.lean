import CreatorSynth.Proofs.Document.SecondRun

/-! Names are written in full where constructors are inherited and short where they are inserted.
Either way their last segments stay, and with them the signatures that tell constructors apart. -/
namespace CreatorSynth
open Text

namespace CompilationUnit

variable {u : CompilationUnit} {simple path : String}

theorem endsWithName_of_path (clean : DotFree simple)
    (found : (u.findClass? simple).bind u.pathOf? = some path) :
    EndsWithName (u.qualify path) simple := by
  obtain ⟨id, listed, named⟩ := exists_named_of_path clean found
  obtain ⟨top, _, member⟩ := List.mem_flatMap.mp listed
  obtain ⟨name, known, shape⟩ := name_of_mem_pathsFrom member
  rw [named] at known
  cases known
  unfold qualify
  split
  · exact EndsWithName.behind shape _
  · exact shape

end CompilationUnit

theorem Import.endsWithName_of_bound? {i : Import} {simple : String}
    (bound : i.bound? = some simple) : EndsWithName i.path simple := by
  unfold bound? at bound
  split at bound
  · cases bound
  · rw [← Option.some.inj bound]
    exact endsWithName_simpleName i.path

/-- However a name is qualified, it is only made longer in front. -/
theorem Scope.endsWithName_qualifyName (s : Scope) (name : String) :
    EndsWithName (s.qualifyName name) name := by
  obtain ⟨clean, whole⟩ := splitHead_spec name
  unfold qualifyName
  generalize splitHead name = parts at clean whole ⊢
  obtain ⟨first, rest⟩ := parts
  have inFront {qualified : String} (ends : EndsWithName qualified first) :
      EndsWithName (dotted qualified rest) name := by
    rw [← whole]
    exact ends.dotted rest
  dsimp only
  split
  · exact .inl rfl
  split
  · exact .inl rfl
  split
  · rename_i path found
    exact inFront (CompilationUnit.endsWithName_of_path clean found)
  split
  · rename_i i search
    have bound : i.bound? = some first := by simpa using List.find?_some search
    exact inFront (Import.endsWithName_of_bound? bound)
  split
  · rename_i qualified search
    obtain ⟨package, _, same⟩ := List.mem_map.mp (List.mem_of_find?_eq_some search)
    exact inFront (.inr ⟨package, same.symm⟩)
  · exact .inl rfl

theorem BaseConstructor.signature_mapTypes {f : String → String}
    (keeps : ∀ name, simpleName (f name) = simpleName name) (c : BaseConstructor) :
    (c.mapTypes (·.rename f)).signature = c.signature := by
  simp only [signature, mapTypes, List.map_map]
  refine List.map_congr_left fun p _ => ?_
  simp only [Function.comp_apply, BaseParam.effectiveType, ← TypeRef.rename_array]
  split <;> exact TypeRef.erasure_rename keeps _

theorem BaseConstructor.signature_ofDecl (m : MethodDecl) : (ofDecl m).signature = m.signature := by
  rw [signature, ofDecl, List.map_map]
  rfl

/-- An inherited constructor, whose types are qualified, has the signature of its declaration, and
a constructor whose types are written short keeps its own. A qualified name ends with the name, and
a name with its short form. -/
theorem renaming_keeps_signatures :
    (∀ (index : ClassIndex) (unit : CompilationUnit) (decl : ClassDecl) (path : String)
        (type : TypeRef),
      (index.superclassFromSource unit decl path type).constructors.map (·.signature) =
        decl.constructors.map (·.signature)) ∧
      (∀ (unit : CompilationUnit) (m : MethodDecl),
        (m.shortenReferences unit).1.signature = m.signature) ∧
      (∀ (scope : Scope) (name : String), EndsWithName (scope.qualifyName name) name) ∧
      ∀ (unit : CompilationUnit) (name : String), EndsWithName name (unit.shorten name) := by
  refine ⟨fun index unit decl path type => ?_,
    fun unit m => m.signature_shortenReferences unit,
    Scope.endsWithName_qualifyName, CompilationUnit.endsWithName_shorten⟩
  rw [ClassIndex.superclassFromSource, List.map_map]
  refine List.map_congr_left fun m _ => ?_
  have keeps (scope : Scope) (name : String) :
      simpleName (scope.qualifyName name) = simpleName name :=
    (scope.endsWithName_qualifyName name).simpleName
  exact (BaseConstructor.signature_mapTypes (keeps _) _).trans (BaseConstructor.signature_ofDecl m)

end CreatorSynth
