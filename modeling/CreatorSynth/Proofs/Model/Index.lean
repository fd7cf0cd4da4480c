import Mathlib.Data.List.Perm.Basic
import CreatorSynth.Model.Index

/-! What an index answers comes from two ways to find a class, by its qualified and by its simple
name. Indexes that find the same classes describe every class alike. So the order in which units are
added makes no difference, unless two of them declare a class of one qualified name. A unit that is
added twice is still found by qualified names, but no longer by simple ones. -/
namespace CreatorSynth
open Text

section Lists

variable {α β : Type}

/-- Where at most one of the lists to be joined has elements, their order makes no difference. -/
theorem flatMap_eq_of_perm {f : α → List β} {as bs : List α} (perm : as.Perm bs)
    (alone : as.Pairwise fun a b => f a = [] ∨ f b = []) : as.flatMap f = bs.flatMap f := by
  induction perm with
  | nil => rfl
  | cons a _ ih => rw [List.flatMap_cons, List.flatMap_cons, ih alone.of_cons]
  | swap a b as =>
    rcases (List.pairwise_cons.mp alone).1 a List.mem_cons_self with empty | empty
    all_goals simp [empty]
  | trans first _ ih ih' =>
    exact (ih alone).trans (ih' (first.pairwise alone Or.symm))

variable [BEq α] [LawfulBEq α]

theorem nodup_eraseDups (as : List α) : as.eraseDups.Nodup := by
  match as with
  | [] => exact List.nodup_nil
  | a :: as =>
    have shorter := List.length_filter_le (fun b => !b == a) as
    rw [List.eraseDups_cons, List.nodup_cons]
    exact ⟨by simp [List.mem_eraseDups], nodup_eraseDups _⟩
termination_by as.length
decreasing_by exact Nat.lt_succ_of_le shorter

theorem length_eraseDups_eq {as bs : List α} (same : ∀ a, a ∈ as ↔ a ∈ bs) :
    as.eraseDups.length = bs.eraseDups.length := by
  refine List.Perm.length_eq ((List.perm_ext_iff_of_nodup ?_ ?_).mpr fun a => ?_)
  · exact nodup_eraseDups as
  · exact nodup_eraseDups bs
  · rw [List.mem_eraseDups, List.mem_eraseDups, same]

end Lists

namespace ClassIndex

/-- Either way to find a class leads to the same one. -/
structure Agree (i j : ClassIndex) : Prop where
  lookup : ∀ name, i.lookup? name = j.lookup? name
  simple : ∀ name, i.lookupSimple? name = j.lookupSimple? name

namespace Agree

variable {i j : ClassIndex}

theorem qualify (same : i.Agree j) (u : CompilationUnit) (typeVariables : List String) :
    (Scope.mk i u typeVariables).qualify = (Scope.mk j u typeVariables).qualify := by
  have names : (Scope.mk i u typeVariables).qualifyName =
      (Scope.mk j u typeVariables).qualifyName := by
    funext name
    simp only [Scope.qualifyName, same.lookup]
  funext t
  rw [Scope.qualify, names, Scope.qualify]

theorem superclassFromSource (same : i.Agree j) :
    i.superclassFromSource = j.superclassFromSource := by
  funext u decl path type
  simp only [ClassIndex.superclassFromSource, Scope.withParams, same.qualify]

theorem superclassAt (same : i.Agree j) : i.superclassAt = j.superclassAt := by
  funext e type
  rw [ClassIndex.superclassAt, same.superclassFromSource, ClassIndex.superclassAt]

theorem resolveType (same : i.Agree j) : i.resolveType = j.resolveType := by
  funext u inside type
  have lookups : i.lookup? = j.lookup? := funext same.lookup
  simp only [ClassIndex.resolveType, same.superclassFromSource, same.superclassAt, lookups,
    same.simple]

theorem superclassOf? (same : i.Agree j) : i.superclassOf? = j.superclassOf? := by
  funext u id
  simp only [ClassIndex.superclassOf?, same.resolveType]

theorem describe? (same : i.Agree j) : i.describe? = j.describe? := by
  funext u id
  simp only [ClassIndex.describe?, same.superclassOf?]

end Agree

variable {index : ClassIndex} {u : CompilationUnit} {units units' : List CompilationUnit}

theorem entries_ofUnits (units : List CompilationUnit) :
    (ofUnits units).entries = units.flatMap CompilationUnit.entries := by
  have added : ∀ index, (units.foldl add index).entries =
      index.entries ++ units.flatMap CompilationUnit.entries := by
    induction units with
    | nil => exact fun index => (List.append_nil _).symm
    | cons u units ih =>
      intro index
      rw [List.foldl_cons, ih, add, List.append_assoc, List.flatMap_cons]
  exact added empty

theorem lookup?_eq (index : ClassIndex) (name : String) :
    index.lookup? name = (index.entries.filter (·.qualified == name)).getLast? := by
  rw [lookup?, ← List.head?_filter, List.filter_reverse, List.head?_reverse]

theorem size_eq {i j : ClassIndex}
    (names : ∀ name, (∃ e ∈ i.entries, e.qualified = name) ↔ ∃ e ∈ j.entries, e.qualified = name) :
    i.size = j.size :=
  length_eraseDups_eq fun name => by simpa using names name

theorem lookupSimple?_eq_some_iff {simple : String} {e : Entry} :
    index.lookupSimple? simple = some e ↔
      index.entries.filter (·.simple? == some simple) = [e] := by
  rw [lookupSimple?]
  split
  · rename_i only
    rw [only, Option.some.injEq, List.cons.injEq, and_iff_left rfl]
  · rename_i other
    exact ⟨nofun, fun only => absurd only (other e)⟩

end ClassIndex

/-- No class of the units has the same qualified name. -/
def CompilationUnit.Apart (u v : CompilationUnit) : Prop :=
  ∀ e ∈ u.entries, ∀ f ∈ v.entries, e.qualified ≠ f.qualified

instance : DecidableRel CompilationUnit.Apart :=
  fun u v => inferInstanceAs (Decidable (∀ e ∈ u.entries, ∀ f ∈ v.entries, _))

namespace ClassIndex

variable {index : ClassIndex} {u : CompilationUnit} {units units' : List CompilationUnit}

/-- At most one of the units has entries of a qualified name, and those keep their order. -/
theorem lookup?_of_perm (apart : units.Pairwise CompilationUnit.Apart) (perm : units.Perm units')
    (name : String) : (ofUnits units).lookup? name = (ofUnits units').lookup? name := by
  rw [lookup?_eq, lookup?_eq, entries_ofUnits, entries_ofUnits, List.filter_flatMap,
    List.filter_flatMap]
  refine congrArg List.getLast? (flatMap_eq_of_perm perm (apart.imp fun {u v} different => ?_))
  by_contra both
  obtain ⟨some, some'⟩ := not_or.mp both
  obtain ⟨e, member⟩ := List.exists_mem_of_ne_nil _ some
  obtain ⟨f, member'⟩ := List.exists_mem_of_ne_nil _ some'
  obtain ⟨listed, named⟩ := List.mem_filter.mp member
  obtain ⟨listed', named'⟩ := List.mem_filter.mp member'
  exact different e listed f listed' ((beq_iff_eq.mp named).trans (beq_iff_eq.mp named').symm)

theorem lookupSimple?_of_perm (perm : units.Perm units') (simple : String) :
    (ofUnits units).lookupSimple? simple = (ofUnits units').lookupSimple? simple := by
  have entries : (ofUnits units).entries.Perm (ofUnits units').entries := by
    rw [entries_ofUnits, entries_ofUnits]
    exact perm.flatMap_right _
  refine Option.ext fun e => ?_
  have filtered := entries.filter (·.simple? == some simple)
  rw [lookupSimple?_eq_some_iff, lookupSimple?_eq_some_iff]
  constructor
  · intro only
    exact List.perm_singleton.mp ((only ▸ filtered).symm)
  · intro only
    exact List.perm_singleton.mp (only ▸ filtered)

theorem size_of_perm (perm : units.Perm units') : (ofUnits units).size = (ofUnits units').size := by
  refine size_eq fun name => exists_congr fun e => and_congr_left fun _ => ?_
  rw [entries_ofUnits, entries_ofUnits]
  exact (perm.flatMap_right _).mem_iff

theorem agree_of_perm (apart : units.Pairwise CompilationUnit.Apart) (perm : units.Perm units') :
    (ofUnits units).Agree (ofUnits units') :=
  ⟨lookup?_of_perm apart perm, lookupSimple?_of_perm perm⟩

/-- Units that declare no class of the same qualified name can be indexed in any order. -/
theorem order_of_units_free (apart : units.Pairwise CompilationUnit.Apart)
    (perm : units.Perm units') :
    (ofUnits units).size = (ofUnits units').size ∧
    (∀ name, (ofUnits units).lookup? name = (ofUnits units').lookup? name) ∧
    ∀ u id, (ofUnits units).superclassOf? u id = (ofUnits units').superclassOf? u id ∧
      (ofUnits units).describe? u id = (ofUnits units').describe? u id := by
  have same := agree_of_perm apart perm
  exact ⟨size_of_perm perm, same.lookup, fun u id =>
    ⟨by rw [same.superclassOf?], by rw [same.describe?]⟩⟩

/-- A file in a package with one class and its constructor. -/
def singleUnit (package className : String) (extended : Option TypeRef) (params : List Param) :
    CompilationUnit :=
  let constructor : MethodDecl :=
    ⟨⟨["public"], []⟩, [], none, className, params, [], some ⟨[], Span.none⟩, none, Span.none⟩
  ⟨some package, [], 0, [⟨.ordinary, className, .empty, [], extended, [], [],
    [.constructor constructor], none, Span.none, Span.none⟩], [0]⟩

def colorUnit : CompilationUnit :=
  singleUnit "p" "Color" none []

def shapeUnit : CompilationUnit :=
  singleUnit "p" "Shape" none [.ofType "color" (.simple "Color")]

/-- In another package, and without an import of what it extends. -/
def circleUnit : CompilationUnit :=
  singleUnit "q" "Circle" (some (.simple "Shape")) []

theorem shape_before_color :
    let units := [shapeUnit, colorUnit]
    let units' := [colorUnit, shapeUnit]
    units.Pairwise CompilationUnit.Apart ∧ units.Perm units' ∧
      (ofUnits units).size = 2 ∧ (ofUnits units').size = 2 ∧
      (ofUnits units).describe? circleUnit 0 = (ofUnits units').describe? circleUnit 0 ∧
      ((ofUnits units').superclassOf? circleUnit 0).map
        (fun s => s.constructors.flatMap (·.params.map (·.type.name))) = some ["p.Color"] := by
  intro units units'
  have apart : units.Pairwise CompilationUnit.Apart := by decide +kernel
  have perm : units.Perm units' := .swap _ _ []
  have free := order_of_units_free apart perm
  have two : (ofUnits units).size = 2 := by decide +kernel
  exact ⟨apart, perm, two, free.1 ▸ two, (free.2.2 circleUnit 0).2, by decide +kernel⟩

section Again

variable {before after : List Entry}

theorem size_add_again (added : index.entries = before ++ u.entries ++ after) :
    (index.add u).size = index.size := by
  refine size_eq fun name => exists_congr fun e => and_congr_left fun _ => ?_
  rw [add, List.mem_append, or_iff_left_iff_imp, added]
  intro listed
  exact List.mem_append_left _ (List.mem_append_right _ listed)

theorem lookup?_add_again (added : index.entries = before ++ u.entries ++ after)
    (apart : ∀ e ∈ u.entries, ∀ f ∈ after, e.qualified ≠ f.qualified) (name : String) :
    (index.add u).lookup? name = index.lookup? name := by
  rw [lookup?_eq, lookup?_eq, add, List.filter_append, added, List.filter_append, List.filter_append]
  cases own : u.entries.filter (·.qualified == name) with
  | nil => rw [List.append_nil]
  | cons e others =>
    have untaken : after.filter (·.qualified == name) = [] := by
      refine List.filter_eq_nil_iff.mpr fun f member named => ?_
      obtain ⟨declared, called⟩ := List.mem_filter.mp (own ▸ List.mem_cons_self)
      exact apart e declared f member ((beq_iff_eq.mp called).trans (beq_iff_eq.mp named).symm)
    rw [untaken, List.append_nil]
    simp only [List.getLast?_append, List.getLast?_cons, Option.some_or]

/-- By its simple name a class of the unit is not found any more: its two entries count as two
classes. Other simple names are found as before. -/
theorem lookupSimple?_add_again (added : index.entries = before ++ u.entries ++ after)
    (simple : String) :
    (index.add u).lookupSimple? simple =
      if ∃ e ∈ u.entries, e.simple? = some simple then none else index.lookupSimple? simple := by
  refine Option.ext fun found => ?_
  rw [lookupSimple?_eq_some_iff, add, List.filter_append]
  split
  · rename_i declares
    obtain ⟨e, declared, named⟩ := declares
    have own : e ∈ u.entries.filter (·.simple? == some simple) :=
      List.mem_filter.mpr ⟨declared, beq_iff_eq.mpr named⟩
    have some := List.length_pos_of_mem own
    refine iff_of_false (fun only => ?_) nofun
    have one := congrArg List.length only
    rw [added] at one
    simp only [List.filter_append, List.length_append, List.length_singleton] at one
    omega
  · rename_i other
    have none : u.entries.filter (·.simple? == some simple) = [] :=
      List.filter_eq_nil_iff.mpr fun e declared named =>
        other ⟨e, declared, beq_iff_eq.mp named⟩
    rw [none, List.append_nil, lookupSimple?_eq_some_iff]

/-- So a unit can be added again without a change just if none of its classes was found by its simple
name. -/
theorem agree_add_again_iff (added : index.entries = before ++ u.entries ++ after)
    (apart : ∀ e ∈ u.entries, ∀ f ∈ after, e.qualified ≠ f.qualified) :
    (index.add u).Agree index ↔
      ∀ e ∈ u.entries, ∀ simple, e.simple? = some simple → index.lookupSimple? simple = none := by
  constructor
  · intro same e declared simple named
    rw [← same.simple, lookupSimple?_add_again added, if_pos ⟨e, declared, named⟩]
  · intro unfound
    refine ⟨lookup?_add_again added apart, fun simple => ?_⟩
    rw [lookupSimple?_add_again added]
    split
    · rename_i declares
      obtain ⟨e, declared, named⟩ := declares
      exact (unfound e declared simple named).symm
    · rfl

/-- What a class extends in another package is known while its file is indexed once. -/
theorem shape_lost_again :
    let index := ofUnits [colorUnit, shapeUnit]
    ((index.superclassOf? circleUnit 0).map (·.qualifiedName)) = some "p.Shape" ∧
      (((index.add shapeUnit).superclassOf? circleUnit 0).map (·.qualifiedName)) =
        some "q.Shape" := by
  decide +kernel

end Again

end ClassIndex

end CreatorSynth
