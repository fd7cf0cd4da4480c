import CreatorSynth.Proofs.Model.Substitution

/-! The constructors of a superclass that is extended without type arguments. A type in them stays
as it is, is a variable that its first bound replaces, or loses its arguments. So no variable is left
over just if none of them is bounded by another one: bounds are not erased in turn. -/
namespace CreatorSynth
namespace Substitution

theorem erased_args (p : TypeParam) : p.erased.args = [] := by
  unfold TypeParam.erased
  split <;> rfl

theorem entries_ofSuperclass_raw {c : Superclass} (raw : c.typeArgs = []) :
    (ofSuperclass c).entries =
      c.typeParams.reverse.map fun p => (p.name, .type p.erased) := by
  simp only [ofSuperclass, raw, List.getElem?_nil, Option.getD_none, List.map_reverse]
  exact congrArg List.reverse (List.ext_getElem (by simp) (by simp))

theorem lookup?_ofSuperclass_raw {c : Superclass} (raw : c.typeArgs = []) (name : String) :
    (ofSuperclass c).lookup? name =
      (c.typeParams.reverse.find? (·.name == name)).map fun p => .type p.erased := by
  rw [lookup?, entries_ofSuperclass_raw raw]
  induction c.typeParams.reverse with
  | nil => rfl
  | cons p params ih =>
    rw [List.map_cons, List.lookup_cons, List.find?_cons, BEq.comm (a := name)]
    cases p.name == name with
    | true => rfl
    | false => exact ih

/-- Every variable stands for a name alone, and types that mention one lose their arguments. -/
structure Erases (s : Substitution) : Prop where
  raw : s.raw = true ∨ ∀ name, s.lookup? name = none
  bare : ∀ name arg, s.lookup? name = some arg → ∃ image, arg = .type image ∧ image.args = []

theorem erases_ofSuperclass {c : Superclass} (raw : c.typeArgs = []) :
    (ofSuperclass c).Erases where
  raw := by
    cases params : c.typeParams with
    | nil =>
      refine .inr fun name => ?_
      rw [lookup?_ofSuperclass_raw raw, params]
      rfl
    | cons p params' =>
      exact .inl (by simp [ofSuperclass, raw, params])
  bare := by
    intro name arg found
    rw [lookup?_ofSuperclass_raw raw] at found
    obtain ⟨p, _, rfl⟩ := Option.map_eq_some_iff.mp found
    exact ⟨p.erased, rfl, erased_args p⟩

namespace Erases

variable {s : Substitution}

theorem without (erases : s.Erases) (names : List String) : (s.without names).Erases where
  raw := by
    refine erases.raw.imp id fun unbound name => ?_
    rw [lookup?_without, unbound, ite_self]
  bare := by
    intro name arg found
    rw [lookup?_without] at found
    split at found
    · cases found
    · exact erases.bare name arg found

/-- A type stays as it is, is replaced by what a variable is erased to, or loses its arguments. -/
theorem substitute_cases (erases : s.Erases) (t : TypeRef) :
    (t.substitute s = t ∧ ∀ name ∈ t.bareNames, s.lookup? name = none) ∨
    (∃ image, s.lookup? t.name = some (.type image) ∧ image.args = [] ∧
      t.substitute s = image.array t.dims) ∨
    (t.args ≠ [] ∧ t.substitute s = ⟨t.name, [], t.dims⟩) := by
  cases mentioned : t.mentions s with
  | false =>
    rw [TypeRef.mentions_eq_any, List.any_eq_false] at mentioned
    have fresh : ∀ name ∈ t.bareNames, s.lookup? name = none := fun name member => by
      simpa using mentioned name member
    exact .inl ⟨t.substitute_of_fresh s fresh, fresh⟩
  | true =>
    obtain ⟨name, _ | ⟨a, as⟩, dims⟩ := t
    · rw [TypeRef.mentions, Option.isSome_iff_exists] at mentioned
      obtain ⟨arg, found⟩ := mentioned
      obtain ⟨image, rfl, bare⟩ := erases.bare name arg found
      refine .inr (.inl ⟨image, found, bare, ?_⟩)
      rw [TypeRef.substitute, found]
      rfl
    · refine .inr (.inr ⟨List.cons_ne_nil a as, ?_⟩)
      have raw : s.raw = true := by
        refine erases.raw.resolve_right fun unbound => ?_
        simp [TypeRef.mentions_eq_any, unbound] at mentioned
      simp only [TypeRef.substitute, raw, mentioned, Bool.and_self, if_true]

end Erases

/-- The raw view of a superclass leaves none of its type parameters over in any constructor, save
those that the constructor declares itself, just if none of them is erased to the name of another.
Type parameters are taken to have no arguments. -/
theorem raw_view_erases_iff {c : Superclass} (raw : c.typeArgs = []) :
    (∀ base : BaseConstructor,
      (∀ t ∈ base.types, t.args ≠ [] → t.name ∉ c.typeParams.map (·.name)) →
      ∀ t ∈ (base.substitute (ofSuperclass c)).types, ∀ name ∈ t.bareNames,
        name ∈ c.typeParams.map (·.name) → name ∈ base.typeParamNames) ↔
    ∀ name image, (ofSuperclass c).image? name = some image →
      image.name ∉ c.typeParams.map (·.name) := by
  have erases := erases_ofSuperclass raw
  have known : ∀ name, name ∈ c.typeParams.map (·.name) ↔
      ((ofSuperclass c).lookup? name).isSome = true := by
    intro name
    rw [lookup?_ofSuperclass_raw raw]
    simp
  constructor
  · intro all name image found listed
    obtain ⟨arg, bound, rfl⟩ := Option.map_eq_some_iff.mp found
    obtain ⟨image, rfl, bare⟩ := erases.bare name arg bound
    -- A constructor with one parameter, whose type is the variable, shows what it is erased to.
    have param : (TypeRef.simple name).substitute (ofSuperclass c) = image := by
      rw [TypeRef.simple, TypeRef.substitute, bound]
      exact image.array_zero
    have own := all ⟨[.unnamed (.simple name)], [], [], none, .pub, .source⟩
      (by simp [BaseConstructor.types, BaseParam.unnamed, TypeRef.simple]) image
      (by
        rw [BaseConstructor.types_substitute, BaseConstructor.typeParamNames, List.map_nil,
          without_nil, ← param]
        exact List.mem_cons_self)
      image.name (by simp [TypeRef.bareNames_of_bare bare]) listed
    cases own
  · intro apart base wellFormed t member name bare listed
    rw [BaseConstructor.types_substitute, List.mem_map] at member
    obtain ⟨declared, among, rfl⟩ := member
    by_cases own : name ∈ base.typeParamNames
    · exact own
    have bound : (((ofSuperclass c).without base.typeParamNames).lookup? name).isSome = true := by
      rw [lookup?_without, if_neg own]
      exact (known name).mp listed
    obtain ⟨same, fresh⟩ | ⟨image, found, args, replaced⟩ | ⟨args, cut⟩ :=
      (erases.without base.typeParamNames).substitute_cases declared
    · rw [same] at bare
      rw [fresh name bare] at bound
      cases bound
    · rw [lookup?_without] at found
      split at found
      · cases found
      · rw [replaced, TypeRef.bareNames_of_bare (t := image.array declared.dims) args] at bare
        have same : name = image.name := List.mem_singleton.mp bare
        exact absurd (same ▸ listed) (apart declared.name image (by rw [image?, found]; rfl))
    · rw [cut, TypeRef.bareNames, List.mem_singleton] at bare
      exact absurd (bare ▸ listed) (wellFormed declared among args)

/-- The bound of one type parameter is the other. -/
def chainedSuperclass : Superclass :=
  ⟨"Base", [], [⟨"A", [.simple "Number"]⟩, ⟨"B", [.simple "A"]⟩], []⟩

def chainedConstructor : BaseConstructor :=
  ⟨[⟨some "b", .simple "B", .empty, false⟩], [], [], none, .pub, .source⟩

theorem chainedBound_left_over :
    chainedSuperclass.typeArgs = [] ∧ "A" ∈ chainedSuperclass.typeParams.map (·.name) ∧
    "A" ∉ chainedConstructor.typeParamNames ∧
    (chainedConstructor.substitute (ofSuperclass chainedSuperclass)).types = [.simple "A"] := by
  decide

end Substitution
end CreatorSynth
