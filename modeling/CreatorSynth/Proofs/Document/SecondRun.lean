import CreatorSynth.Proofs.Document.History
import CreatorSynth.Proofs.Document.ShortNames

/-! Signatures tell constructors apart by the simple names of their parameter types, and these stay
when a name is written short. So a selection is generated once more just as long as the class lacks
one of its constructors in the form they have been inserted in. -/
namespace CreatorSynth
open Text

theorem CompilationUnit.simpleName_shorten (u : CompilationUnit) (name : String) :
    simpleName (u.shorten name) = simpleName name :=
  (u.endsWithName_shorten name).simpleName.symm

section Rename

variable {f : String → String}

theorem TypeRef.erasure_rename (keeps : ∀ name, Text.simpleName (f name) = Text.simpleName name)
    (t : TypeRef) : (t.rename f).erasure = t.erasure := by
  cases t with
  | mk name args dims => simp only [TypeRef.rename, erasure, TypeRef.simpleName, keeps]

theorem TypeRef.rename_array (t : TypeRef) (dims : Nat) :
    (t.array dims).rename f = (t.rename f).array dims := by
  cases t with
  | mk name args depth => simp only [array, TypeRef.rename]

theorem MethodDecl.signature_renameReferences (keeps : ∀ name, simpleName (f name) = simpleName name)
    (m : MethodDecl) : (m.renameReferences f).signature = m.signature := by
  simp only [signature, renameReferences, List.map_map]
  refine List.map_congr_left fun p _ => ?_
  have type : (p.type.rename f).array 1 = (p.type.array 1).rename f := (p.type.rename_array 1).symm
  simp only [Function.comp_apply, Param.effectiveType, type]
  split
  · exact TypeRef.erasure_rename keeps _
  · exact TypeRef.erasure_rename keeps _

end Rename

theorem MethodDecl.signature_shortenReferences (m : MethodDecl) (u : CompilationUnit) :
    (m.shortenReferences u).1.signature = m.signature :=
  m.signature_renameReferences u.simpleName_shorten

namespace Options

variable {options : Options} {c : ClassDescriptor} {selection : List Candidate}
  {found : List MethodDecl}

theorem withoutExisting_of_some (some : withoutExisting c found ≠ []) :
    withoutExisting c found = found := by
  rw [withoutExisting] at some ⊢
  split
  · rename_i all
    exact absurd (if_pos all) some
  · rfl

theorem drawn_of_some {α : Type} {drawn : Except GenerateError α} {list : α → List MethodDecl}
    (some : found ≠ [])
    (generated : (drawn >>= fun a => pure (withoutExisting c (list a))) = .ok found) :
    ∃ a, drawn = .ok a ∧ list a = found := by
  cases drawn with
  | error e => cases generated
  | ok a =>
    cases generated
    exact ⟨a, rfl, (withoutExisting_of_some some).symm⟩

/-- The constructors that a class has decide only whether anything is generated at all. -/
theorem generate_existing (generated : options.generate c selection = .ok found) (some : found ≠ [])
    (signatures : List Signature) :
    options.generate { c with existingConstructors := signatures } selection =
      .ok (withoutExisting { c with existingConstructors := signatures } found) := by
  have unread : options.prototype { c with existingConstructors := signatures } =
      options.prototype c := rfl
  unfold generate at generated ⊢
  rw [unread]
  simp only at generated ⊢
  split at generated
  · cases generated
  · rename_i named
    rw [if_neg named]
    simp only [pure_bind] at generated ⊢
    split at generated
    · -- no base constructor is selected
      obtain ⟨single, drawn, rfl⟩ := drawn_of_some some generated
      rw [drawn]
      rfl
    · split at generated
      · cases generated
      · obtain ⟨each, drawn, rfl⟩ := drawn_of_some some generated
        rw [drawn]
        rfl

end Options

namespace Document

variable {options : Options} {index : ClassIndex} {className : String} {selection : List Candidate}
  {d d' : Document}

theorem prototypes_existing {c : ClassDescriptor} {found : List MethodDecl}
    (generated : d.prototypes options c selection = .ok found) (some : found ≠ [])
    (dialect : d'.dialect = d.dialect) (signatures : List Signature) :
    d'.prototypes options { c with existingConstructors := signatures } selection =
      .ok (Options.withoutExisting { c with existingConstructors := signatures } found) := by
  unfold prototypes at generated ⊢
  rw [dialect]
  split at generated
  · rename_i drawn
    cases generated
    rw [Options.generate_existing drawn some signatures]
  · cases generated

/-- Performed again, a selection leaves the document alone just if the class has by then a
constructor of each signature that was inserted. This takes that nothing else that is known of the
class has changed. -/
theorem perform_again {name : String} {constructors imports : List String}
    {signatures : List Signature}
    (run : (perform options index className selection).on d =
      (.ok (.inserted name constructors imports), d'))
    (stays : ∀ c, d.describe index className = .ok c →
      d'.describe index className = .ok { c with existingConstructors := signatures }) :
    ∃ c found, d.describe index className = .ok c ∧
      d.prototypes options c selection = .ok found ∧
      ((perform options index className selection).on d' = (.ok .nothingToGenerate, d') ↔
        ∀ m ∈ found, (m.shortenReferences d.unit).1.signature ∈ signatures) := by
  obtain ⟨c, found, changed, described, generated, some, -, -⟩ := perform_on_inserted run
  refine ⟨c, found, described, generated, ?_⟩
  have left : d' = (Act.perform options index className selection).leaves d :=
    (congrArg Prod.snd run).symm
  have dialect : d'.dialect = d.dialect := left ▸ (Act.follows _ d).dialect
  have there : (∀ m ∈ found, (m.shortenReferences d.unit).1.signature ∈ signatures) ↔
      found.all (fun m => { c with existingConstructors := signatures }.hasConstructor
        m.signature) = true := by
    simp [ClassDescriptor.hasConstructor, MethodDecl.signature_shortenReferences]
  rw [perform_on, stays c described]
  simp only [prototypes_existing generated some dialect signatures]
  rw [there, Options.withoutExisting]
  split
  · rename_i all
    exact iff_of_true rfl all
  · rename_i lacking
    have full : ¬ found.isEmpty = true := fun empty => some (List.isEmpty_iff.mp empty)
    rw [if_neg full]
    refine iff_of_false (fun again => ?_) lacking
    -- The change fails, or constructors are inserted.
    split at again
    · cases again
    · cases again

end Document

end CreatorSynth
