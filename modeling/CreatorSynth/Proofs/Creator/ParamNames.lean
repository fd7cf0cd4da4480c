import CreatorSynth.Proofs.Creator.FreshNames
import CreatorSynth.Proofs.Creator.Selection

/-! The names of the parameters of generated constructors. The parameter of a field is named apart
from all parameters in front of it, so the parameters of a constructor are told apart by their names
as long as those taken over from the superclass are. -/
namespace CreatorSynth
open Text

/-- No two parameters have the same name, and none has a reserved one. -/
structure NamedApart (params : List Param) : Prop where
  distinct : (params.map (·.name)).Nodup
  unreserved : ∀ p ∈ params, isReserved p.name = false

namespace NamedApart

variable {params others : List Param}

theorem of_perm (apart : NamedApart params) (perm : params.Perm others) : NamedApart others where
  distinct := (perm.map _).nodup_iff.mp apart.distinct
  unreserved := fun p member => apart.unreserved p (perm.mem_iff.mpr member)

theorem concat {p : Param} (apart : NamedApart params) (fresh : p.name ∉ params.map (·.name))
    (unreserved : isReserved p.name = false) : NamedApart (params ++ [p]) where
  distinct := by
    rw [List.map_append, List.map_singleton, List.nodup_append_comm]
    exact List.nodup_cons.mpr ⟨fresh, apart.distinct⟩
  unreserved := by
    intro q member
    rcases List.mem_append.mp member with earlier | here
    · exact apart.unreserved q earlier
    · rw [List.mem_singleton.mp here]
      exact unreserved

theorem map {f : Param → Param} (apart : NamedApart params) (keeps : ∀ p, (f p).name = p.name) :
    NamedApart (params.map f) where
  distinct := by
    have names : (params.map f).map (·.name) = params.map (·.name) := by
      rw [List.map_map]
      exact List.map_congr_left fun p _ => keeps p
    rw [names]
    exact apart.distinct
  unreserved := by
    intro q member
    obtain ⟨p, among, rfl⟩ := List.mem_map.mp member
    rw [keeps]
    exact apart.unreserved p among

end NamedApart

/-- The parameters have no names, or each of them has another one. -/
def BaseConstructor.NamesApart (c : BaseConstructor) : Prop :=
  (∀ p ∈ c.params, p.name = none) ∨
    (∀ p ∈ c.params, p.name ≠ none) ∧ (c.params.map (·.name)).Nodup

instance (c : BaseConstructor) : Decidable c.NamesApart :=
  inferInstanceAs (Decidable (_ ∨ _))

theorem BaseConstructor.namesApart_substitute {c : BaseConstructor} (view : Substitution) :
    (c.substitute view).NamesApart ↔ c.NamesApart := by
  simp only [NamesApart, substitute, mapTypes, List.forall_mem_map, List.map_map]
  rfl

theorem BaseConstructor.NamesApart.distinct {c : BaseConstructor} (apart : c.NamesApart) :
    (c.params.mapIdx fun i p => p.name.getD s!"arg{i}").Nodup := by
  rw [List.Nodup, List.pairwise_iff_getElem]
  intro i j hi hj before same
  simp only [List.length_mapIdx] at hi hj
  simp only [List.getElem_mapIdx] at same
  rcases apart with unnamed | ⟨named, different⟩
  · rw [unnamed _ (List.getElem_mem hi), unnamed _ (List.getElem_mem hj)] at same
    have equal : i = j := numbered_inj.mp same
    omega
  · obtain ⟨first, known⟩ := Option.ne_none_iff_exists'.mp (named _ (List.getElem_mem hi))
    obtain ⟨second, known'⟩ := Option.ne_none_iff_exists'.mp (named _ (List.getElem_mem hj))
    rw [known, known'] at same
    have apart := List.pairwise_iff_getElem.mp different i j (by simpa using hi) (by simpa using hj)
      before
    simp only [List.getElem_map, known, known'] at apart
    exact apart (congrArg some same)

namespace Options

variable {options : Options} {c : ClassDescriptor} {base : Option BaseConstructor}
  {fields : List FieldDescriptor} {inherited own : List Param} {m : MethodDecl}
  {selection : List Candidate} {found : List MethodDecl}

theorem fieldParam_name {taken : List String} {f : FieldDescriptor} {p : Param}
    (made : options.fieldParam taken f = .ok p) :
    isIdentifier f.name = true ∧ p.name =
      uniquify (options.naming.parameterOfProperty (options.naming.propertyOfField f.name)) taken := by
  unfold fieldParam at made
  split at made
  · cases made
  · rename_i valid
    split at made
    · cases made
    · cases made
      exact ⟨by simpa using valid, rfl⟩

theorem withOwn_perm (inherited own : List Param) :
    (withOwn inherited own).Perm (inherited ++ own) := by
  rcases List.eq_nil_or_concat inherited with rfl | ⟨before, last, rfl⟩
  · exact .refl _
  · rw [List.concat_eq_append, withOwn_concat]
    split
    · rw [List.append_assoc, List.append_assoc]
      exact List.perm_append_comm.append_left before
    · exact .refl _

/-- Each own parameter is named apart from the inherited ones and from those added before it. -/
theorem OwnParams.apart (each : options.OwnParams inherited fields own)
    (apart : NamedApart inherited) : NamedApart (withOwn inherited own) := by
  -- By induction on how many fields have been given a parameter. Where those of the fields stand
  -- among the inherited ones does not matter to the names.
  have upTo : ∀ i, i ≤ own.length → NamedApart (inherited ++ own.take i) := by
    intro i
    induction i with
    | zero =>
      intro _
      rw [List.take_zero, List.append_nil]
      exact apart
    | succ i ih =>
      intro inside
      have short : i < fields.length := by rw [← each.1]; exact inside
      have made := each.2 i fields[i] own[i] (List.getElem?_eq_getElem short)
        (List.getElem?_eq_getElem inside)
      have name := (fieldParam_name made).2
      rw [← List.take_append_getElem inside, ← List.append_assoc]
      refine (ih (by omega)).concat (fun taken => ?_) (by rw [name]; exact isReserved_uniquify _ _)
      have among := ((withOwn_perm inherited (own.take i)).map (·.name)).mem_iff.mpr taken
      rw [name] at among
      exact uniquify_not_mem _ _ among
  have all := upTo own.length (Nat.le_refl _)
  rw [List.take_length] at all
  exact all.of_perm (withOwn_perm inherited own).symm

theorem baseParams_of_prototype (generated : options.prototype c base fields = .ok m) :
    ∃ typeParams, baseParams c base = .ok (inheritedParams c base, typeParams) := by
  simp only [prototype, bind, Except.bind] at generated
  split at generated
  · cases generated
  · rename_i taken found
    obtain ⟨inherited, typeParams⟩ := taken
    rw [← baseParams_ok found]
    exact ⟨typeParams, found⟩

theorem isIdentifier_of_namedParams {b : BaseConstructor} {params : List Param}
    (named : b.namedParams = .ok params) : ∀ p ∈ params, isIdentifier p.name = true := by
  intro p member
  obtain ⟨⟨name, q⟩, _, made⟩ := exists_of_forall₂ (mapM_eq_ok_iff.mp named) member
  simp only at made
  split at made
  · cases made
  · rename_i valid
    split at made
    · cases made
    · cases made
      simpa using valid

theorem isIdentifier_of_inherited (generated : options.prototype c base fields = .ok m) :
    ∀ p ∈ inheritedParams c base, isIdentifier p.name = true := by
  obtain ⟨typeParams, taken⟩ := baseParams_of_prototype generated
  generalize inheritedParams c base = inherited at taken
  unfold baseParams at taken
  split at taken
  · cases taken
    nofun
  · split at taken
    · cases taken
    · split at taken
      · cases taken
        nofun
      · rename_i b _ _ _ _
        cases named : b.namedParams with
        | error e =>
          rw [named] at taken
          cases taken
        | ok params =>
          rw [named] at taken
          cases taken
          exact isIdentifier_of_namedParams named

theorem distinct_inherited (known : ∀ b ∈ base, b.NamesApart) :
    ((inheritedParams c base).map (·.name)).Nodup := by
  unfold inheritedParams
  split
  · rename_i b superclass _
    split
    · exact List.nodup_nil
    · simpa [List.mapIdx_eq_zipIdx_map, Function.comp_def] using (known b rfl).distinct
  · exact List.nodup_nil

theorem prototype_namedApart (generated : options.prototype c base fields = .ok m)
    (known : ∀ b ∈ base, b.NamesApart) : NamedApart m.params := by
  have inherited : NamedApart (inheritedParams c base) := by
    refine ⟨distinct_inherited known, fun p member => ?_⟩
    have valid := isIdentifier_of_inherited generated p member
    simpa using (Bool.and_eq_true_iff.mp valid).2
  obtain ⟨own, _, each, params, _⟩ := prototype_ok generated
  rw [params]
  exact (each.apart inherited).map fun _ => rfl

/-- A last parameter of the base that takes a variable number of arguments is the last one. -/
def KeepsVararg (base : BaseConstructor) (m : MethodDecl) : Prop :=
  ∀ last ∈ base.params.getLast?, last.varargs = true →
    m.params.getLast? = some ⟨last.modifiers.normalize, last.type,
      last.name.getD s!"arg{base.params.length - 1}", true, Span.none⟩

theorem prototype_keepsVararg {superclass : Superclass} {b : BaseConstructor}
    (known : c.superclass = some superclass) (ordinary : superclass.isEnum = false)
    (generated : options.prototype c (some b) fields = .ok m) : KeepsVararg b m := by
  intro last ends varargs
  obtain ⟨own, _, _, params, _⟩ := prototype_ok generated
  have inherited : (inheritedParams c (some b)).getLast? = some ⟨last.modifiers, last.type,
      last.name.getD s!"arg{b.params.length - 1}", true, Span.none⟩ := by
    simp [inheritedParams, known, ordinary, List.getLast?_mapIdx, Option.mem_def.mp ends, varargs]
  rw [params, List.getLast?_map, withOwn, inherited]
  simp

/-- Whatever fields are selected and however they are named: where the names of each base constructor
are told apart, those of the constructors generated from it are too, none is reserved, and a base
parameter that takes a variable number of arguments stays last. -/
theorem generate_names_apart (generated : options.generate c selection = .ok found)
    (known : ∀ b ∈ selection.filterMap Candidate.base?, b.NamesApart) :
    (∀ m ∈ found, (m.params.map (·.name)).Nodup ∧ ∀ p ∈ m.params, isReserved p.name = false) ∧
    (found = [] ∨ selection.filterMap Candidate.base? = [] ∨
      ∃ superclass, c.superclass = some superclass ∧ (superclass.isEnum = false →
        List.Forall₂ (fun b m => KeepsVararg (b.substitute (.ofSuperclass superclass)) m)
          (selection.filterMap Candidate.base?) found)) := by
  obtain ⟨ms, yields, kept⟩ := generate_yields generated
  rcases withoutExisting_cases c ms with none | all
  · rw [kept, none]
    exact ⟨nofun, .inl rfl⟩
  · rw [kept, all]
    cases yields with
    | single unselected single =>
      refine ⟨fun m member => ?_, .inr (.inl unselected)⟩
      obtain ⟨distinct, unreserved⟩ := prototype_namedApart single nofun
      rw [List.mem_singleton.mp member]
      exact ⟨distinct, unreserved⟩
    | @each superclass _ extended each =>
      refine ⟨fun m member => ?_, .inr (.inr ⟨superclass, extended, fun ordinary => ?_⟩)⟩
      · obtain ⟨b, selected, drawn⟩ := exists_of_forall₂ each member
        obtain ⟨distinct, unreserved⟩ := prototype_namedApart drawn (by
          rintro _ ⟨⟩
          exact (BaseConstructor.namesApart_substitute _).mpr (known b selected))
        exact ⟨distinct, unreserved⟩
      · exact each.imp fun b m drawn => prototype_keepsVararg extended ordinary drawn

/-- Two fields that come to the name of an inherited parameter, which takes a variable number of
arguments. -/
def crowdedSelection : List Candidate :=
  [.base ⟨[⟨some "id", .simple "int", .empty, true⟩], [], [], none, .pub, .source⟩,
    .field (.ofType "mId" (.simple "int")), .field (.ofType "id" (.simple "int"))]

def crowdedClass : ClassDescriptor where
  name := "Child"
  qualifiedName := "Child"
  kind := .ordinary
  visibility := .pub
  typeParams := []
  superclass := some (.unresolved "Base" [])
  existingConstructors := []
  members := crowdedSelection

def crowdedOptions : Options :=
  { standard with naming := .mPrefixed }

theorem crowded_names_apart :
    (∀ b ∈ crowdedSelection.filterMap Candidate.base?, b.NamesApart) ∧
    ∃ m, crowdedOptions.generate crowdedClass crowdedSelection = .ok [m] ∧
      m.params.map (·.name) = ["id1", "id2", "id"] ∧ (m.params.map (·.name)).Nodup ∧
      KeepsVararg ⟨[⟨some "id", .simple "int", .empty, true⟩], [], [], none, .pub, .source⟩ m := by
  have known : ∀ b ∈ crowdedSelection.filterMap Candidate.base?, b.NamesApart := by decide
  refine ⟨known, ?_⟩
  have one : ((crowdedOptions.generate crowdedClass crowdedSelection).toOption.map fun found =>
      found.map fun m => m.params.map (·.name)) = some [["id1", "id2", "id"]] := by decide +kernel
  cases generated : crowdedOptions.generate crowdedClass crowdedSelection with
  | error e =>
    rw [generated] at one
    cases one
  | ok found =>
    rw [generated] at one
    obtain ⟨m, rfl, names⟩ := List.map_eq_singleton_iff.mp (Option.some.inj one)
    obtain ⟨apart, last⟩ := generate_names_apart generated known
    refine ⟨m, rfl, names, (apart m List.mem_cons_self).1, ?_⟩
    obtain empty | empty | ⟨superclass, known, each⟩ := last
    · cases empty
    · cases empty
    · cases known
      cases each (by decide) with
      | cons kept _ => exact kept

end Options
end CreatorSynth
