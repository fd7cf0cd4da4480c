import CreatorSynth.Model.Substitution

/-! Laws of substitution in types. It changes a type only where a variable stands, which is a name
without arguments, and it takes array dimensions along. Where every variable stands for a type,
substituting twice is substituting once what the second substitution makes of the first. -/
namespace CreatorSynth

mutual
/-- The names without arguments in a type from left to right: where its variables may stand. -/
def TypeRef.bareNames : TypeRef → List String
  | ⟨name, [], _⟩ => [name]
  | ⟨_, a :: as, _⟩ => a.bareNames ++ TypeArg.bareNamesOfAll as

def TypeArg.bareNames : TypeArg → List String
  | .type t | .extending t | .superOf t => t.bareNames
  | .any => []

def TypeArg.bareNamesOfAll : List TypeArg → List String
  | [] => []
  | a :: as => a.bareNames ++ TypeArg.bareNamesOfAll as
end

theorem TypeRef.bareNames_of_bare {t : TypeRef} (bare : t.args = []) : t.bareNames = [t.name] := by
  obtain ⟨name, args, dims⟩ := t
  cases bare
  rfl

section Fresh

variable (s : Substitution)

mutual
theorem TypeRef.mentions_eq_any : (t : TypeRef) →
    t.mentions s = t.bareNames.any fun name => (s.lookup? name).isSome
  | ⟨name, [], dims⟩ => by simp [TypeRef.mentions, TypeRef.bareNames]
  | ⟨name, a :: as, dims⟩ => by
    rw [TypeRef.mentions, TypeRef.bareNames, List.any_append, TypeArg.mentions_eq_any a,
      TypeArg.anyMentions_eq_any as]

theorem TypeArg.mentions_eq_any : (a : TypeArg) →
    a.mentions s = a.bareNames.any fun name => (s.lookup? name).isSome
  | .type t | .extending t | .superOf t => TypeRef.mentions_eq_any t
  | .any => rfl

theorem TypeArg.anyMentions_eq_any : (as : List TypeArg) →
    TypeArg.anyMentions s as =
      (TypeArg.bareNamesOfAll as).any fun name => (s.lookup? name).isSome
  | [] => rfl
  | a :: as => by
    rw [TypeArg.anyMentions, TypeArg.bareNamesOfAll, List.any_append, TypeArg.mentions_eq_any a,
      TypeArg.anyMentions_eq_any as]
end

mutual
/-- Where no variable stands in a type it stays as it is. -/
theorem TypeRef.substitute_of_fresh : (t : TypeRef) →
    (∀ name ∈ t.bareNames, s.lookup? name = none) → t.substitute s = t
  | ⟨name, [], dims⟩, fresh => by
    have unbound : s.lookup? name = none := fresh name (by simp [TypeRef.bareNames])
    rw [TypeRef.substitute, unbound]
  | ⟨name, a :: as, dims⟩, fresh => by
    have unmentioned : (TypeRef.mk name (a :: as) dims).mentions s = false := by
      rw [TypeRef.mentions_eq_any, List.any_eq_false]
      intro inner member
      simp [fresh inner member]
    rw [TypeRef.bareNames] at fresh
    rw [TypeRef.substitute, unmentioned, Bool.and_false, if_neg Bool.false_ne_true,
      TypeArg.substitute_of_fresh a fun inner member => fresh inner (List.mem_append_left _ member),
      TypeArg.substituteAll_of_fresh as fun inner member =>
        fresh inner (List.mem_append_right _ member)]

theorem TypeArg.substitute_of_fresh : (a : TypeArg) →
    (∀ name ∈ a.bareNames, s.lookup? name = none) → a.substitute s = a
  | .type ⟨name, [], 0⟩, fresh => by
    have unbound : s.lookup? name = none :=
      fresh name (by simp [TypeArg.bareNames, TypeRef.bareNames])
    simp [TypeArg.substitute, unbound]
  | .type ⟨name, [], dims + 1⟩, fresh => by
    simp [TypeArg.substitute, TypeRef.substitute_of_fresh ⟨name, [], dims + 1⟩ fresh]
  | .type ⟨name, a :: as, dims⟩, fresh => by
    simp [TypeArg.substitute, TypeRef.substitute_of_fresh ⟨name, a :: as, dims⟩ fresh]
  | .any, _ => rfl
  | .extending t, fresh | .superOf t, fresh => by
    rw [TypeArg.substitute, TypeRef.substitute_of_fresh t fresh]

theorem TypeArg.substituteAll_of_fresh : (as : List TypeArg) →
    (∀ name ∈ TypeArg.bareNamesOfAll as, s.lookup? name = none) →
    TypeArg.substituteAll s as = as
  | [], _ => rfl
  | a :: as, fresh => by
    rw [TypeArg.bareNamesOfAll] at fresh
    rw [TypeArg.substituteAll,
      TypeArg.substitute_of_fresh a fun inner member => fresh inner (List.mem_append_left _ member),
      TypeArg.substituteAll_of_fresh as fun inner member =>
        fresh inner (List.mem_append_right _ member)]
end

end Fresh

theorem TypeRef.substitute_array (s : Substitution) (t : TypeRef) (dims : Nat) :
    (t.array dims).substitute s = (t.substitute s).array dims := by
  obtain ⟨name, _ | ⟨a, as⟩, inner⟩ := t
  · simp only [array, substitute]
    cases s.lookup? name with
    | none => rfl
    | some arg => exact (array_array _ _ _).symm
  · have same : (TypeRef.mk name (a :: as) (inner + dims)).mentions s =
        (TypeRef.mk name (a :: as) inner).mentions s := by
      simp only [mentions]
    simp only [array, substitute, same]
    split <;> rfl

namespace Substitution

/-- Every variable stands for a type, and nothing is erased. -/
structure Plain (s : Substitution) : Prop where
  unerased : s.raw = false
  types : ∀ name arg, s.lookup? name = some arg → ∃ t, arg = .type t

section Composition

variable {s first second both : Substitution}

theorem Plain.substitute_type (plain : s.Plain) (t : TypeRef) :
    (TypeArg.type t).substitute s = .type (t.substitute s) := by
  obtain ⟨name, _ | ⟨a, as⟩, _ | dims⟩ := t
  · cases found : s.lookup? name with
    | none => simp [TypeArg.substitute, TypeRef.substitute, found]
    | some arg =>
      obtain ⟨image, rfl⟩ := plain.types name arg found
      simp [TypeArg.substitute, TypeRef.substitute, found, TypeArg.declared, TypeRef.array_zero]
  all_goals simp [TypeArg.substitute]

/-- Each variable of the first stands for what the second makes of its type, each other one for
what it stands for in the second. -/
structure Composed (first second both : Substitution) : Prop where
  unerased : both.raw = false
  lookup : ∀ name, both.lookup? name =
    ((first.lookup? name).map (·.substitute second)).or (second.lookup? name)

mutual
theorem substitute_typeRef (plain : first.Plain) (plain' : second.Plain)
    (composed : Composed first second both) :
    (t : TypeRef) → (t.substitute first).substitute second = t.substitute both
  | ⟨name, [], dims⟩ => by
    rw [TypeRef.substitute, TypeRef.substitute, composed.lookup]
    cases found : first.lookup? name with
    | none => rw [TypeRef.substitute, Option.map_none, Option.none_or]
    | some arg =>
      obtain ⟨image, rfl⟩ := plain.types name arg found
      rw [Option.map_some, Option.some_or, plain'.substitute_type]
      exact TypeRef.substitute_array second image dims
  | ⟨name, a :: as, dims⟩ => by
    simp only [TypeRef.substitute, plain.unerased, plain'.unerased, composed.unerased,
      Bool.false_and, Bool.false_eq_true, if_false, substitute_typeArg plain plain' composed a,
      substitute_typeArgs plain plain' composed as]

theorem substitute_typeArg (plain : first.Plain) (plain' : second.Plain)
    (composed : Composed first second both) :
    (a : TypeArg) → (a.substitute first).substitute second = a.substitute both
  | .type ⟨name, [], 0⟩ => by
    simp only [TypeArg.substitute, List.isEmpty_nil, beq_self_eq_true, Bool.and_self, if_true,
      composed.lookup]
    cases found : first.lookup? name with
    | none => simp [TypeArg.substitute]
    | some arg => simp
  | .type ⟨name, [], dims + 1⟩ => by
    rw [plain.substitute_type, plain'.substitute_type,
      substitute_typeRef plain plain' composed ⟨name, [], dims + 1⟩]
    simp [TypeArg.substitute]
  | .type ⟨name, a :: as, dims⟩ => by
    rw [plain.substitute_type, plain'.substitute_type,
      substitute_typeRef plain plain' composed ⟨name, a :: as, dims⟩]
    simp [TypeArg.substitute]
  | .any => rfl
  | .extending t | .superOf t => by
    simp only [TypeArg.substitute, substitute_typeRef plain plain' composed t]

theorem substitute_typeArgs (plain : first.Plain) (plain' : second.Plain)
    (composed : Composed first second both) : (as : List TypeArg) →
    TypeArg.substituteAll second (TypeArg.substituteAll first as) = TypeArg.substituteAll both as
  | [] => rfl
  | a :: as => by
    simp only [TypeArg.substituteAll, substitute_typeArg plain plain' composed a,
      substitute_typeArgs plain plain' composed as]
end

end Composition

/-- What a variable is replaced by where a type is declared. -/
def image? (s : Substitution) (name : String) : Option TypeRef :=
  (s.lookup? name).map TypeArg.declared

theorem lookup_filter {α : Type} (kept : String → Bool) (entries : List (String × α))
    (name : String) : (entries.filter fun entry => kept entry.1).lookup name =
      if kept name then entries.lookup name else none := by
  induction entries with
  | nil => simp
  | cons entry entries ih =>
    obtain ⟨key, value⟩ := entry
    by_cases same : name = key
    · subst same
      cases keeps : kept name with
      | true => simp [keeps]
      | false => simpa [keeps] using ih
    · have other : (name == key) = false := beq_eq_false_iff_ne.mpr same
      cases keeps : kept key with
      | true => simp [keeps, List.lookup_cons, other, ih]
      | false => simp [keeps, List.lookup_cons, other, ih]

theorem lookup?_without (s : Substitution) (names : List String) (name : String) :
    (s.without names).lookup? name = if name ∈ names then none else s.lookup? name := by
  rw [without, lookup?, lookup_filter (fun key => !names.contains key)]
  by_cases hidden : name ∈ names <;> simp [hidden, lookup?]

theorem without_nil (s : Substitution) : s.without [] = s := by
  have all : s.entries.filter (fun entry => !([] : List String).contains entry.1) = s.entries :=
    List.filter_eq_self.mpr fun _ _ => rfl
  rw [without, all]

/-- Types inserted for variables one after another. -/
def ofTypes (types : List (String × TypeRef)) : Substitution :=
  types.foldl (fun s entry => s.insert entry.1 entry.2) empty

theorem ofTypes_eq (types : List (String × TypeRef)) :
    ofTypes types = ⟨(types.map fun entry => (entry.1, .type entry.2)).reverse, false⟩ := by
  have step : ∀ s : Substitution, types.foldl (fun s entry => s.insert entry.1 entry.2) s =
      ⟨(types.map fun entry => (entry.1, .type entry.2)).reverse ++ s.entries, s.raw⟩ := by
    induction types with
    | nil => exact fun s => rfl
    | cons entry types ih =>
      intro s
      rw [List.foldl_cons, ih, insert]
      simp
  rw [ofTypes, step, empty, List.append_nil]

theorem lookup_map {α β : Type} (f : α → β) (entries : List (String × α)) (name : String) :
    (entries.map fun entry => (entry.1, f entry.2)).lookup name =
      (entries.lookup name).map f := by
  induction entries with
  | nil => rfl
  | cons entry entries ih =>
    obtain ⟨key, value⟩ := entry
    cases same : name == key with
    | true => simp only [List.map_cons, List.lookup_cons, same, Option.map_some]
    | false => simp only [List.map_cons, List.lookup_cons, same, ih]

theorem lookup?_ofTypes (types : List (String × TypeRef)) (name : String) :
    (ofTypes types).lookup? name = (types.reverse.lookup name).map .type := by
  rw [ofTypes_eq, lookup?, ← List.map_reverse, lookup_map]

theorem plain_ofTypes (types : List (String × TypeRef)) : (ofTypes types).Plain where
  unerased := by rw [ofTypes_eq]
  types := by
    intro name arg found
    rw [lookup?_ofTypes, Option.map_eq_some_iff] at found
    obtain ⟨image, _, same⟩ := found
    exact ⟨image, same.symm⟩

/-- The types of the second, and those of the first with the second substituted in them, which
count where both have one for a variable. -/
def andThen (first second : List (String × TypeRef)) : List (String × TypeRef) :=
  second ++ first.map fun entry => (entry.1, entry.2.substitute (ofTypes second))

theorem composed_andThen (first second : List (String × TypeRef)) :
    Composed (ofTypes first) (ofTypes second) (ofTypes (andThen first second)) where
  unerased := by rw [ofTypes_eq]
  lookup := by
    intro name
    rw [lookup?_ofTypes, andThen, List.reverse_append, ← List.map_reverse, List.lookup_append,
      lookup_map, lookup?_ofTypes, lookup?_ofTypes]
    cases first.reverse.lookup name with
    | none => rfl
    | some image =>
      simp only [Option.map_some, Option.some_or, (plain_ofTypes second).substitute_type]

/-- Substituting types for variables leaves a type alone where none of them stands, takes array
dimensions along, and composes: twice is once with the types of the first in which the second has
been substituted, and with those of the second for all other variables. -/
theorem substitute_laws (first second : List (String × TypeRef)) (t : TypeRef) :
    ((∀ name ∈ t.bareNames, (ofTypes first).image? name = none) →
      t.substitute (ofTypes first) = t) ∧
    (∀ dims, (t.array dims).substitute (ofTypes first) =
      (t.substitute (ofTypes first)).array dims) ∧
    (∀ name, (ofTypes (andThen first second)).image? name =
      (((ofTypes first).image? name).map (·.substitute (ofTypes second))).or
        ((ofTypes second).image? name)) ∧
    (t.substitute (ofTypes first)).substitute (ofTypes second) =
      t.substitute (ofTypes (andThen first second)) := by
  have composed := composed_andThen first second
  refine ⟨fun fresh => ?_, t.substitute_array _, fun name => ?_, ?_⟩
  · exact t.substitute_of_fresh _ fun name member => Option.map_eq_none_iff.mp (fresh name member)
  · rw [image?, composed.lookup, image?, image?]
    cases found : (ofTypes first).lookup? name with
    | none => rfl
    | some arg =>
      obtain ⟨image, rfl⟩ := (plain_ofTypes first).types name arg found
      simp only [Option.map_some, Option.some_or, (plain_ofTypes second).substitute_type,
        TypeArg.declared]
  · exact substitute_typeRef (plain_ofTypes first) (plain_ofTypes second) composed t

/-- The second substitution is made in the types of the first, and the variable that both have goes
the way of the first. -/
theorem substitute_twice_in_map :
    (TypeRef.simple "K").substitute (ofTypes [("T", .simple "U")]) = .simple "K" ∧
    (TypeRef.mk "Map" [.type ⟨"T", [], 1⟩, .extending (.simple "U")] 0).substitute
        (ofTypes (andThen [("T", ⟨"List", [.type (.simple "U")], 0⟩)]
          [("U", .simple "String"), ("T", .simple "int")])) =
      ⟨"Map", [.type ⟨"List", [.type (.simple "String")], 1⟩, .extending (.simple "String")], 0⟩ := by
  refine ⟨(substitute_laws [("T", .simple "U")] [] (.simple "K")).1 (by decide), ?_⟩
  have twice := (substitute_laws [("T", ⟨"List", [.type (.simple "U")], 0⟩)]
    [("U", .simple "String"), ("T", .simple "int")]
    ⟨"Map", [.type ⟨"T", [], 1⟩, .extending (.simple "U")], 0⟩).2.2.2
  rw [← twice]
  decide

end Substitution

namespace BaseConstructor

/-- The types of the parameters, the thrown types and the bounds. -/
def types (c : BaseConstructor) : List TypeRef :=
  c.params.map (·.type) ++ c.throws ++ c.typeParams.flatMap (·.bounds)

/-- The constructor's own type parameters. -/
def typeParamNames (c : BaseConstructor) : List String :=
  c.typeParams.map (·.name)

theorem types_mapTypes (f : TypeRef → TypeRef) (c : BaseConstructor) :
    (c.mapTypes f).types = c.types.map f := by
  simp [types, mapTypes, List.flatMap_map, List.map_flatMap, Function.comp_def]

/-- The constructor's own type parameters hide variables of the same name from all its types. -/
theorem types_substitute (s : Substitution) (c : BaseConstructor) :
    (c.substitute s).types = c.types.map (·.substitute (s.without c.typeParamNames)) :=
  types_mapTypes _ c

end BaseConstructor

end CreatorSynth
