import CreatorSynth.Proofs.Model.Substitution

/-! The type parameters that a constructor declares itself, in the view of it that a subclass has.
They hide type parameters of the class, so what is written with them stays, save that a raw view cuts
off the arguments of types. A name that the subclass supplies is written as it is, though, and where
one of them is called the same it is taken for it. -/
namespace CreatorSynth

/-- The names in a type that are listed, from left to right. -/
def TypeRef.occurrences (listed : List String) (t : TypeRef) : List String :=
  t.names.filter listed.contains

/-- What a raw view leaves of a type: no arguments where they mention a variable. -/
def TypeRef.seen (s : Substitution) (t : TypeRef) : TypeRef :=
  if s.raw && !t.args.isEmpty && t.mentions s then ⟨t.name, [], t.dims⟩ else t

mutual
/-- The names in what the variables of a type are replaced by. -/
def TypeRef.supplied (s : Substitution) : TypeRef → List String
  | ⟨name, [], _⟩ => ((s.image? name).map TypeRef.names).getD []
  | ⟨name, a :: as, dims⟩ =>
      if s.raw && (TypeRef.mk name (a :: as) dims).mentions s then []
      else a.supplied s ++ TypeArg.suppliedAll s as

def TypeArg.supplied (s : Substitution) : TypeArg → List String
  | .type t =>
      if t.args.isEmpty && t.dims == 0 then ((s.lookup? t.name).map TypeArg.names).getD []
      else t.supplied s
  | .any => []
  | .extending t | .superOf t => t.supplied s

def TypeArg.suppliedAll (s : Substitution) : List TypeArg → List String
  | [] => []
  | a :: as => a.supplied s ++ TypeArg.suppliedAll s as
end

theorem TypeArg.mem_names_of_declared {name : String} {a : TypeArg}
    (declared : name ∈ a.declared.names) : name ∈ a.names ∨ name = "Object" := by
  cases a with
  | any => exact .inr (List.mem_singleton.mp declared)
  | type t | extending t | superOf t => exact .inl declared

/-- Of the listed names those before are all there after, in their order, and where none of the
names brought in is listed there are no others. -/
structure Kept (own before after brought : List String) : Prop where
  sublist : (before.filter own.contains).Sublist (after.filter own.contains)
  same : (∀ name ∈ brought, name ∉ own) → after.filter own.contains = before.filter own.contains

namespace Kept

variable {own : List String}

protected theorem refl (names brought : List String) : Kept own names names brought where
  sublist := List.Sublist.refl _
  same _ := rfl

theorem append {before after brought before' after' brought' : List String}
    (kept : Kept own before after brought) (kept' : Kept own before' after' brought') :
    Kept own (before ++ before') (after ++ after') (brought ++ brought') where
  sublist := by
    simp only [List.filter_append]
    exact kept.sublist.append kept'.sublist
  same apart := by
    simp only [List.filter_append]
    rw [kept.same fun name among => apart name (List.mem_append_left _ among),
      kept'.same fun name among => apart name (List.mem_append_right _ among)]

theorem replaced {name : String} (other : name ∉ own) (names : List String) :
    Kept own [name] names names := by
  have none : [name].filter own.contains = [] := by simp [other]
  constructor
  · rw [none]
    exact List.nil_sublist _
  · intro apart
    rw [none, List.filter_eq_nil_iff]
    intro inner among
    simpa using apart inner among

end Kept

namespace Substitution

variable {s : Substitution} {own : List String}

theorem not_mem_of_bound (hidden : ∀ name ∈ own, s.lookup? name = none) {name : String}
    {arg : TypeArg} (bound : s.lookup? name = some arg) : name ∉ own := by
  intro among
  rw [hidden name among] at bound
  cases bound

theorem kept_bare (hidden : ∀ name ∈ own, s.lookup? name = none) (name : String) (dims : Nat) :
    Kept own [name] ((TypeRef.mk name [] dims).substitute s).names
      ((TypeRef.mk name [] dims).supplied s) := by
  rw [TypeRef.substitute, TypeRef.supplied, image?]
  cases bound : s.lookup? name with
  | none => exact .refl [name] _
  | some arg =>
    simp only [TypeRef.names_array, Option.map_some, Option.getD_some]
    exact .replaced (not_mem_of_bound hidden bound) _

mutual
theorem kept_typeRef (unerased : s.raw = false) (hidden : ∀ name ∈ own, s.lookup? name = none) :
    (t : TypeRef) → Kept own t.names (t.substitute s).names (t.supplied s)
  | ⟨name, [], dims⟩ => kept_bare hidden name dims
  | ⟨name, a :: as, dims⟩ => by
    simp only [TypeRef.substitute, TypeRef.supplied, unerased, Bool.false_and, Bool.false_eq_true,
      if_false, TypeRef.names, TypeArg.namesOfAll]
    exact (Kept.refl [name] []).append
      ((kept_typeArg unerased hidden a).append (kept_typeArgs unerased hidden as))

theorem kept_typeArg (unerased : s.raw = false) (hidden : ∀ name ∈ own, s.lookup? name = none) :
    (a : TypeArg) → Kept own a.names (a.substitute s).names (a.supplied s)
  | .type ⟨name, [], 0⟩ => by
    simp only [TypeArg.substitute, TypeArg.supplied, List.isEmpty_nil, beq_self_eq_true,
      Bool.and_self, if_true]
    cases bound : s.lookup? name with
    | none => exact .refl [name] []
    | some arg => exact .replaced (not_mem_of_bound hidden bound) arg.names
  | .type ⟨name, [], dims + 1⟩ => by
    simpa [TypeArg.substitute, TypeArg.supplied, TypeArg.names] using
      kept_typeRef unerased hidden ⟨name, [], dims + 1⟩
  | .type ⟨name, a :: as, dims⟩ => by
    simpa [TypeArg.substitute, TypeArg.supplied, TypeArg.names] using
      kept_typeRef unerased hidden ⟨name, a :: as, dims⟩
  | .any => .refl [] []
  | .extending t | .superOf t => kept_typeRef unerased hidden t

theorem kept_typeArgs (unerased : s.raw = false) (hidden : ∀ name ∈ own, s.lookup? name = none) :
    (as : List TypeArg) → Kept own (TypeArg.namesOfAll as)
      (TypeArg.namesOfAll (TypeArg.substituteAll s as)) (TypeArg.suppliedAll s as)
  | [] => .refl [] []
  | a :: as => (kept_typeArg unerased hidden a).append (kept_typeArgs unerased hidden as)
end

/-- Substituting keeps the hidden names that stand in what the view leaves of a type. -/
theorem kept_seen (hidden : ∀ name ∈ own, s.lookup? name = none) (t : TypeRef) :
    Kept own (t.seen s).names (t.substitute s).names (t.supplied s) := by
  cases raw : s.raw with
  | false =>
    rw [TypeRef.seen, raw, Bool.false_and, Bool.false_and, if_neg Bool.false_ne_true]
    exact kept_typeRef raw hidden t
  | true =>
    obtain ⟨name, _ | ⟨a, as⟩, dims⟩ := t
    · simpa [TypeRef.seen, TypeRef.names, TypeArg.namesOfAll] using kept_bare hidden name dims
    · cases mentioned : (TypeRef.mk name (a :: as) dims).mentions s with
      | true =>
        simp only [TypeRef.seen, TypeRef.substitute, raw, mentioned, List.isEmpty_cons, Bool.not_false,
          Bool.and_self, if_true]
        exact .refl _ _
      | false =>
        have same : (TypeRef.mk name (a :: as) dims).substitute s = ⟨name, a :: as, dims⟩ := by
          refine TypeRef.substitute_of_fresh s _ fun inner member => ?_
          rw [TypeRef.mentions_eq_any, List.any_eq_false] at mentioned
          simpa using mentioned inner member
        rw [same, TypeRef.seen, mentioned, Bool.and_false, if_neg Bool.false_ne_true]
        exact .refl _ _

mutual
theorem of_supplied_typeRef {name : String} : (t : TypeRef) → name ∈ t.supplied s →
    ∃ key arg, s.lookup? key = some arg ∧ (name ∈ arg.names ∨ name = "Object")
  | ⟨var, [], dims⟩, supplied => by
    rw [TypeRef.supplied, image?] at supplied
    cases bound : s.lookup? var with
    | none => simp [bound] at supplied
    | some arg =>
      rw [bound, Option.map_some, Option.map_some, Option.getD_some] at supplied
      exact ⟨var, arg, bound, TypeArg.mem_names_of_declared supplied⟩
  | ⟨_, a :: as, dims⟩, supplied => by
    rw [TypeRef.supplied] at supplied
    split at supplied
    · cases supplied
    · exact (List.mem_append.mp supplied).elim (of_supplied_typeArg a) (of_supplied_typeArgs as)

theorem of_supplied_typeArg {name : String} : (a : TypeArg) → name ∈ a.supplied s →
    ∃ key arg, s.lookup? key = some arg ∧ (name ∈ arg.names ∨ name = "Object")
  | .type t, supplied => by
    rw [TypeArg.supplied] at supplied
    split at supplied
    · cases bound : s.lookup? t.name with
      | none => simp [bound] at supplied
      | some arg => exact ⟨t.name, arg, bound, .inl (by simpa [bound] using supplied)⟩
    · exact of_supplied_typeRef t supplied
  | .extending t, supplied | .superOf t, supplied => of_supplied_typeRef t supplied

theorem of_supplied_typeArgs {name : String} : (as : List TypeArg) →
    name ∈ TypeArg.suppliedAll s as →
    ∃ key arg, s.lookup? key = some arg ∧ (name ∈ arg.names ∨ name = "Object")
  | a :: as, supplied =>
    (List.mem_append.mp supplied).elim (of_supplied_typeArg a) (of_supplied_typeArgs as)
end

theorem names_erased (p : TypeParam) : p.erased.names = [p.erased.name] := by
  unfold TypeParam.erased
  split <;> rfl

theorem of_lookup?_ofSuperclass {c : Superclass} {key : String} {arg : TypeArg}
    (bound : (ofSuperclass c).lookup? key = some arg) :
    arg ∈ c.typeArgs ∨ ∃ p ∈ c.typeParams, arg = .type p.erased := by
  obtain ⟨before, after, entries, -⟩ := List.lookup_eq_some_iff.mp bound
  have among : (key, arg) ∈ (ofSuperclass c).entries := by simp [entries]
  obtain ⟨i, inside, same⟩ := List.mem_mapIdx.mp (List.mem_reverse.mp among)
  injection same with _ same
  cases found : c.typeArgs[i]? with
  | none =>
    rw [found] at same
    exact .inr ⟨_, List.getElem_mem inside, same.symm⟩
  | some given =>
    rw [found] at same
    exact .inl (same ▸ List.mem_of_getElem? found)

theorem of_supplied_ofSuperclass {c : Superclass} {names : List String} {t : TypeRef}
    {name : String} (supplied : name ∈ t.supplied ((ofSuperclass c).without names)) :
    (∃ arg ∈ c.typeArgs, name ∈ arg.names) ∨ (∃ p ∈ c.typeParams, name = p.erased.name) ∨
      name = "Object" := by
  obtain ⟨key, arg, bound, inside | other⟩ := of_supplied_typeRef t supplied
  · rw [lookup?_without] at bound
    split at bound
    · cases bound
    obtain given | ⟨p, among, rfl⟩ := of_lookup?_ofSuperclass bound
    · exact .inl ⟨arg, given, inside⟩
    · refine .inr (.inl ⟨p, among, ?_⟩)
      rwa [TypeArg.names, names_erased, List.mem_singleton] at inside
  · exact .inr (.inr other)

/-- A subclass sees every type of a constructor with the names of the constructor's own type
parameters where they were, save in arguments that a raw view cuts off. There are no more of them,
unless a name that the subclass supplies in that type is one of theirs. -/
theorem own_type_params_kept (c : Superclass) (base : BaseConstructor) :
    let own := base.typeParamNames
    let view := (ofSuperclass c).without own
    (base.substitute (ofSuperclass c)).typeParamNames = own ∧
    (base.substitute (ofSuperclass c)).types = base.types.map (·.substitute view) ∧
    (c.typeArgs ≠ [] → ∀ t : TypeRef, t.seen view = t) ∧
    ∀ t ∈ base.types,
      ((t.seen view).occurrences own).Sublist ((t.substitute view).occurrences own) ∧
      ((∀ name ∈ t.supplied view, name ∉ own) →
        (t.substitute view).occurrences own = (t.seen view).occurrences own) ∧
      ∀ name ∈ t.supplied view, (∃ arg ∈ c.typeArgs, name ∈ arg.names) ∨
        (∃ p ∈ c.typeParams, name = p.erased.name) ∨ name = "Object" := by
  intro own view
  refine ⟨?_, base.types_substitute _, fun given t => ?_, fun t _ => ?_⟩
  · simp [own, BaseConstructor.typeParamNames, BaseConstructor.substitute,
      BaseConstructor.mapTypes, Function.comp_def]
  · have unerased : view.raw = false := by
      simp [view, without, ofSuperclass, given]
    rw [TypeRef.seen, unerased, Bool.false_and, Bool.false_and, if_neg Bool.false_ne_true]
  · have hidden : ∀ name ∈ own, view.lookup? name = none := fun name among => by
      rw [lookup?_without, if_pos among]
    have kept := kept_seen hidden t
    exact ⟨kept.sublist, kept.same, fun name => of_supplied_ofSuperclass⟩

/-- In a map to what `T` is, the constructor's own `X` stays, and nothing that is supplied for `T`
could be taken for it. -/
theorem own_type_params_kept_in_map :
    let c : Superclass := ⟨"Base", [.type (.simple "String")], [⟨"T", []⟩], []⟩
    let m : TypeRef := ⟨"Map", [.type (.simple "X"), .extending (.simple "T")], 0⟩
    let base : BaseConstructor :=
      ⟨[⟨some "m", m, .empty, false⟩], [], [⟨"X", []⟩], none, .pub, .source⟩
    let view := (ofSuperclass c).without base.typeParamNames
    m.substitute view = ⟨"Map", [.type (.simple "X"), .extending (.simple "String")], 0⟩ ∧
      (m.substitute view).occurrences base.typeParamNames = m.occurrences base.typeParamNames := by
  intro c m base view
  obtain ⟨_, _, seen, kept⟩ := own_type_params_kept c base
  have same := (kept m List.mem_cons_self).2.1 (by decide)
  rw [seen (by decide) m] at same
  exact ⟨by decide, same⟩

/-- A raw view cuts off the own type parameter of a constructor together with the arguments it stands
in, and a type argument that is called like one is taken for it. -/
theorem own_type_params_lost_or_taken :
    let lost : BaseConstructor :=
      ⟨[⟨some "m", ⟨"Map", [.type (.simple "X"), .type (.simple "T")], 0⟩, .empty, false⟩],
        [], [⟨"X", []⟩], none, .pub, .source⟩
    let taken : BaseConstructor :=
      ⟨[⟨some "t", .simple "T", .empty, false⟩, ⟨some "x", .simple "X", .empty, false⟩],
        [], [⟨"X", []⟩], none, .pub, .source⟩
    (lost.types.map (·.occurrences ["X"]) = [["X"]] ∧
      (lost.substitute (ofSuperclass ⟨"Base", [], [⟨"T", []⟩], []⟩)).types.map
        (·.occurrences ["X"]) = [[]]) ∧
    taken.types.map (·.occurrences ["X"]) = [[], ["X"]] ∧
      (taken.substitute (ofSuperclass
        ⟨"Base", [.type (.simple "X")], [⟨"T", []⟩], []⟩)).types.map (·.occurrences ["X"]) =
        [["X"], ["X"]] := by
  decide

end Substitution
end CreatorSynth
