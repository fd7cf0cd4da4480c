import Mathlib.Data.List.Nodup
import Mathlib.Data.List.Perm.Basic
import CreatorSynth.Decl.Unit

/-! The classes of a unit as a forest. Where every class is named once, by the unit or by a class
with a larger number, the paths list every class once, and a walk with a stack lists them in the
same order. -/
namespace CreatorSynth.CompilationUnit

/-- Every class is named once, at the top or as a member of a class with a larger number. -/
structure Arranged (u : CompilationUnit) : Prop where
  below : ∀ {id : Nat} {c}, u.class? id = some c → ∀ inner : Nat, inner ∈ c.nested → inner < id
  once : (u.topLevel ++ u.classes.flatMap ClassDecl.nested).Perm (List.range u.classes.length)

/-- The path of a class in another one, or in none. -/
def pathUnder : Option String → String → String
  | some outer, name => outer ++ "." ++ name
  | none, name => name

/-- A class and all those in it, with their paths. -/
def within (u : CompilationUnit) (outer : Option String) (id : ClassId) : List (ClassId × String) :=
  u.pathsFrom u.classes.length outer id

/-- The walk of the paths: a class is taken from the stack, and those in it are put on top. -/
inductive Visits (u : CompilationUnit) :
    (stack : List (ClassId × String)) → (visited : List (ClassId × String)) → Prop
  | done : Visits u [] []
  | visit {id : ClassId} {path : String} {c : ClassDecl} {stack visited : List (ClassId × String)}
      (found : u.class? id = some c)
      (more : Visits u
        (c.nested.map (fun inner => (inner, path ++ "." ++ (u.nameOf? inner).getD "")) ++ stack)
        visited) :
      Visits u ((id, path) :: stack) ((id, path) :: visited)

theorem Visits.unique {u : CompilationUnit} {stack visited visited' : List (ClassId × String)}
    (first : u.Visits stack visited) (second : u.Visits stack visited') : visited = visited' := by
  induction first generalizing visited' with
  | done =>
    cases second
    rfl
  | visit found _ ih =>
    cases second with
    | visit found' more' =>
      rw [found] at found'
      cases found'
      rw [ih more']

theorem class?_isSome {u : CompilationUnit} {id : Nat} (below : id < u.classes.length) :
    ∃ c, u.class? id = some c :=
  ⟨u.classes[id], List.getElem?_eq_getElem below⟩

theorem lt_of_class? {u : CompilationUnit} {id : Nat} {c : ClassDecl}
    (found : u.class? id = some c) : id < u.classes.length :=
  (List.getElem?_eq_some_iff.mp found).1

namespace Arranged

variable {u : CompilationUnit} {id : Nat} {c : ClassDecl} {outer : Option String}

theorem lt_of_topLevel (arranged : u.Arranged) (top : id ∈ u.topLevel) : id < u.classes.length :=
  List.mem_range.mp (arranged.once.mem_iff.mp (List.mem_append_left _ top))

/-- More levels than there are classes below change nothing. -/
theorem pathsFrom_eq (arranged : u.Arranged) {depth depth' : Nat} (deep : id < depth)
    (deep' : id < depth') : u.pathsFrom depth outer id = u.pathsFrom depth' outer id := by
  induction depth generalizing depth' id outer with
  | zero => omega
  | succ depth ih =>
    obtain ⟨depth', rfl⟩ : ∃ n, depth' = n + 1 := ⟨depth' - 1, by omega⟩
    simp only [pathsFrom]
    cases found : u.class? id with
    | none => rfl
    | some c =>
      simp only [List.cons.injEq, true_and]
      refine List.flatMap_congr fun inner member => ?_
      have less := arranged.below found inner member
      exact ih (by omega) (by omega)

theorem within_eq (arranged : u.Arranged) (found : u.class? id = some c) :
    u.within outer id = (id, pathUnder outer c.name) ::
      c.nested.flatMap (u.within (some (pathUnder outer c.name))) := by
  have bound := lt_of_class? found
  obtain ⟨n, size⟩ : ∃ n, u.classes.length = n + 1 := ⟨u.classes.length - 1, by omega⟩
  have inside : ∀ inner ∈ c.nested, ∀ outer,
      u.pathsFrom n outer inner = u.pathsFrom (n + 1) outer inner := fun inner member outer => by
    have less := arranged.below found inner member
    exact arranged.pathsFrom_eq (by omega) (by omega)
  unfold within
  rw [size]
  conv => lhs; rw [pathsFrom]
  simp only [found, List.cons.injEq]
  refine ⟨by cases outer <;> rfl, List.flatMap_congr fun inner member => ?_⟩
  rw [inside inner member]
  cases outer <;> rfl

theorem induction {motive : Nat → Prop} (arranged : u.Arranged)
    (step : ∀ id c, u.class? id = some c → (∀ inner : Nat, inner ∈ c.nested → motive inner) →
      motive id) {id : Nat} (below : id < u.classes.length) : motive id := by
  induction id using Nat.strongRecOn with
  | ind id ih =>
    obtain ⟨c, found⟩ := class?_isSome below
    exact step id c found fun inner member => ih inner (arranged.below found inner member)
      (Nat.lt_trans (arranged.below found inner member) below)

theorem ids_within (arranged : u.Arranged) (below : id < u.classes.length) :
    ∀ outer, (u.within outer id).map (·.1) = (u.within none id).map (·.1) := by
  refine arranged.induction (motive := fun id => ∀ outer,
    (u.within outer id).map (·.1) = (u.within none id).map (·.1)) ?_ below
  intro id c found ih outer
  rw [arranged.within_eq found, arranged.within_eq found]
  simp only [List.map_cons, List.map_flatMap, List.cons.injEq, true_and]
  refine List.flatMap_congr fun inner member => ?_
  rw [ih inner member, ih inner member (some _)]

theorem flatMap_range {α β : Type} (f : α → List β) (xs : List α) :
    (List.range xs.length).flatMap (fun i => (xs[i]?.map f).getD []) = xs.flatMap f := by
  induction xs with
  | nil => rfl
  | cons x xs ih =>
    rw [List.length_cons, List.range_succ_eq_map, List.flatMap_cons, List.flatMap_map]
    simp only [List.getElem?_cons_zero, List.getElem?_cons_succ, Option.map_some, Option.getD_some,
      Nat.succ_eq_add_one]
    rw [ih, List.flatMap_cons]

/-- The paths list every class once. Each class is counted below the one that names it, so all
classes together count once more than those named by members. -/
theorem ids_perm (arranged : u.Arranged) :
    (u.classPaths.map (·.1)).Perm (List.range u.classes.length) := by
  let ids (id : Nat) : List Nat := (u.within none id).map (·.1)
  let named := u.classes.flatMap ClassDecl.nested
  have unfolded : ∀ id ∈ List.range u.classes.length,
      ids id = id :: (((u.class? id).map ClassDecl.nested).getD []).flatMap ids := by
    intro id member
    obtain ⟨c, found⟩ := class?_isSome (List.mem_range.mp member)
    simp only [ids, arranged.within_eq found, found, List.map_cons, List.map_flatMap,
      Option.map_some, Option.getD_some, List.cons.injEq, true_and]
    refine List.flatMap_congr fun inner inside => ?_
    exact arranged.ids_within (Nat.lt_trans (arranged.below found inner inside)
      (lt_of_class? found)) _
  have by_name : ((List.range u.classes.length).flatMap ids).Perm
      (u.topLevel.flatMap ids ++ named.flatMap ids) := by
    rw [← List.flatMap_append]
    exact (arranged.once.flatMap_right ids).symm
  have by_level : ((List.range u.classes.length).flatMap ids).Perm
      (List.range u.classes.length ++ named.flatMap ids) := by
    rw [List.flatMap_congr unfolded]
    refine (List.map_append_flatMap_perm _ id _).symm.trans ?_
    rw [List.map_id, ← List.flatMap_assoc]
    exact .of_eq (congrArg _ (congrArg _ (flatMap_range ClassDecl.nested u.classes)))
  have listed : u.classPaths.map (·.1) = u.topLevel.flatMap ids := by
    rw [classPaths, List.map_flatMap]
    rfl
  rw [listed]
  exact (List.perm_append_right_iff _).mp (by_name.symm.trans by_level)

theorem visits_within (arranged : u.Arranged) (below : id < u.classes.length)
    {stack visited : List (ClassId × String)} (more : u.Visits stack visited) :
    u.Visits ((id, pathUnder outer ((u.nameOf? id).getD "")) :: stack)
      (u.within outer id ++ visited) := by
  refine arranged.induction (motive := fun id => ∀ outer stack visited, u.Visits stack visited →
    u.Visits ((id, pathUnder outer ((u.nameOf? id).getD "")) :: stack)
      (u.within outer id ++ visited)) ?_ below outer stack visited more
  intro id c found ih outer stack visited more
  rw [arranged.within_eq found, nameOf?, found, Option.map_some, Option.getD_some]
  refine .visit found ?_
  have all : ∀ inners : List ClassId, (∀ inner ∈ inners, inner ∈ c.nested) →
      u.Visits (inners.map (fun inner =>
          (inner, pathUnder outer c.name ++ "." ++ (u.nameOf? inner).getD "")) ++ stack)
        (inners.flatMap (u.within (some (pathUnder outer c.name))) ++ visited) := by
    intro inners inside
    induction inners with
    | nil => exact more
    | cons inner inners rest =>
      rw [List.map_cons, List.flatMap_cons, List.append_assoc]
      exact ih inner (inside inner List.mem_cons_self) (some (pathUnder outer c.name)) _ _
        (rest fun inner member => inside inner (List.mem_cons_of_mem _ member))
  exact all c.nested fun _ member => member

theorem visits_classPaths (arranged : u.Arranged) :
    u.Visits (u.topLevel.map fun id => (id, (u.nameOf? id).getD "")) u.classPaths := by
  have all : ∀ ids : List ClassId, (∀ id ∈ ids, id ∈ u.topLevel) →
      u.Visits (ids.map fun id => (id, (u.nameOf? id).getD "")) (ids.flatMap (u.within none)) := by
    intro ids top
    induction ids with
    | nil => exact .done
    | cons id ids rest =>
      exact @visits_within _ id none arranged (arranged.lt_of_topLevel (top id List.mem_cons_self))
        _ _ (rest fun id member => top id (List.mem_cons_of_mem _ member))
  exact all u.topLevel fun _ member => member

theorem path_within (arranged : u.Arranged) (below : id < u.classes.length) :
    ∀ outer, ∀ entry ∈ u.within outer id, ∃ c, u.class? entry.1 = some c ∧
      ((entry.1 = id ∧ entry.2 = pathUnder outer c.name) ∨
        ∃ around ∈ u.within outer id, ∃ d, u.class? around.1 = some d ∧ entry.1 ∈ d.nested ∧
          entry.2 = around.2 ++ "." ++ c.name) := by
  refine arranged.induction (motive := fun id => ∀ outer, ∀ entry ∈ u.within outer id,
    ∃ c, u.class? entry.1 = some c ∧ ((entry.1 = id ∧ entry.2 = pathUnder outer c.name) ∨
      ∃ around ∈ u.within outer id, ∃ d, u.class? around.1 = some d ∧ entry.1 ∈ d.nested ∧
        entry.2 = around.2 ++ "." ++ c.name)) ?_ below
  intro id c found ih outer entry member
  rw [arranged.within_eq found] at member ⊢
  cases member with
  | head => exact ⟨c, found, .inl ⟨rfl, rfl⟩⟩
  | tail _ member =>
    obtain ⟨inner, inside, member⟩ := List.mem_flatMap.mp member
    obtain ⟨d, known, here | ⟨around, listed, e, named, nested, path⟩⟩ :=
      ih inner inside (some (pathUnder outer c.name)) entry member
    · exact ⟨d, known, .inr ⟨_, List.mem_cons_self, c, found, here.1 ▸ inside, here.2⟩⟩
    · exact ⟨d, known, .inr ⟨around, List.mem_cons_of_mem _ (List.mem_flatMap.mpr
        ⟨inner, inside, listed⟩), e, named, nested, path⟩⟩

end Arranged

/-- Classes spread over the source: those in another one stand in it, one behind the other. -/
structure Spread (u : CompilationUnit) : Prop where
  forward : ∀ {id c}, u.class? id = some c → c.span.start < c.span.stop
  inside : ∀ {id c inner d}, u.class? id = some c → inner ∈ c.nested → u.class? inner = some d →
    c.span.start < d.span.start ∧ d.span.stop ≤ c.span.stop
  apart : ∀ {id c}, u.class? id = some c → c.nested.Pairwise fun inner inner' => ∀ d d',
    u.class? inner = some d → u.class? inner' = some d' → d.span.stop ≤ d'.span.start
  top : u.topLevel.Pairwise fun id id' => ∀ d d',
    u.class? id = some d → u.class? id' = some d' → d.span.stop ≤ d'.span.start

namespace Arranged

variable {u : CompilationUnit} {id : Nat}

/-- The class of one entry begins before that of another one. -/
def Before (u : CompilationUnit) (entry entry' : ClassId × String) : Prop :=
  ∀ d d', u.class? entry.1 = some d → u.class? entry'.1 = some d' → d.span.start < d'.span.start

/-- The entries of a class begin and end in it. -/
def InClass (u : CompilationUnit) (c : ClassDecl) (entry : ClassId × String) : Prop :=
  ∃ d, u.class? entry.1 = some d ∧ c.span.start ≤ d.span.start ∧ d.span.start < d.span.stop ∧
    d.span.stop ≤ c.span.stop

theorem before_flatMap {outer : Option String} {ids : List Nat}
    (known : ∀ id ∈ ids, ∃ c, u.class? id = some c)
    (each : ∀ id ∈ ids, ∀ c, u.class? id = some c →
      (∀ entry ∈ u.within outer id, InClass u c entry) ∧ (u.within outer id).Pairwise (Before u))
    (apart : ids.Pairwise fun id id' => ∀ d d',
      u.class? id = some d → u.class? id' = some d' → d.span.stop ≤ d'.span.start) :
    (ids.flatMap (u.within outer)).Pairwise (Before u) := by
  refine List.pairwise_flatMap.mpr ⟨fun id member => ?_, ?_⟩
  · obtain ⟨c, found⟩ := known id member
    exact (each id member c found).2
  · refine apart.imp_of_mem fun {id id'} member member' order => ?_
    intro entry listed entry' listed' d d' same same'
    obtain ⟨c, found⟩ := known id member
    obtain ⟨c', found'⟩ := known id' member'
    obtain ⟨e, known, _, some, inside⟩ := (each id member c found).1 entry listed
    obtain ⟨e', known', inside', _, _⟩ := (each id' member' c' found').1 entry' listed'
    rw [same] at known
    rw [same'] at known'
    cases known
    cases known'
    have between := order c c' found found'
    omega

theorem before_within (arranged : u.Arranged) (spread : u.Spread) (below : id < u.classes.length) :
    ∀ outer c, u.class? id = some c →
      (∀ entry ∈ u.within outer id, InClass u c entry) ∧
      (u.within outer id).Pairwise (Before u) := by
  refine arranged.induction (motive := fun id => ∀ outer c, u.class? id = some c →
    (∀ entry ∈ u.within outer id, InClass u c entry) ∧
    (u.within outer id).Pairwise (Before u)) ?_ below
  intro id c found ih outer c' found'
  rw [found] at found'
  cases found'
  have known : ∀ inner ∈ c.nested, ∃ d, u.class? inner = some d := fun inner member =>
    class?_isSome (Nat.lt_trans (arranged.below found inner member) (lt_of_class? found))
  have inner_entries : ∀ entry ∈ c.nested.flatMap (u.within (some (pathUnder outer c.name))),
      ∃ d, u.class? entry.1 = some d ∧ c.span.start < d.span.start ∧
        d.span.start < d.span.stop ∧ d.span.stop ≤ c.span.stop := by
    intro entry member
    obtain ⟨inner, inside, member⟩ := List.mem_flatMap.mp member
    obtain ⟨d, named⟩ := known inner inside
    obtain ⟨e, same, low, some, high⟩ := (ih inner inside _ d named).1 entry member
    obtain ⟨begins, ends⟩ := spread.inside found inside named
    exact ⟨e, same, by omega, some, by omega⟩
  rw [arranged.within_eq found]
  constructor
  · intro entry member
    cases member with
    | head => exact ⟨c, found, Nat.le_refl _, spread.forward found, Nat.le_refl _⟩
    | tail _ member =>
      obtain ⟨d, same, begins, some, ends⟩ := inner_entries entry member
      exact ⟨d, same, Nat.le_of_lt begins, some, ends⟩
  · refine List.pairwise_cons.mpr ⟨fun entry member d d' same same' => ?_,
      before_flatMap known (fun inner member => ih inner member _) (spread.apart found)⟩
    obtain ⟨e, named, begins, _, _⟩ := inner_entries entry member
    rw [same'] at named
    cases named
    rw [found] at same
    cases same
    exact begins

/-- The paths are listed in the order of the source. -/
theorem before_classPaths (arranged : u.Arranged) (spread : u.Spread) :
    u.classPaths.Pairwise (Before u) :=
  before_flatMap (fun _ member => class?_isSome (arranged.lt_of_topLevel member))
    (fun _ member => arranged.before_within spread (arranged.lt_of_topLevel member) none) spread.top

end Arranged

section Find

variable {u : CompilationUnit} {id : Nat} {path : String}

theorem findClass?_of_mem (listed : (id, path) ∈ u.classPaths) :
    ∃ found, u.findClass? path = some found ∧ (found, path) ∈ u.classPaths := by
  cases search : u.classPaths.find? fun entry => entry.2 == path with
  | none =>
    have missing := List.find?_eq_none.mp search _ listed
    simp at missing
  | some entry =>
    have same : entry.2 = path := by simpa using List.find?_some search
    refine ⟨entry.1, ?_, ?_⟩
    · simp only [findClass?, search, Option.some_or, Option.map_some]
    · rw [← same]
      exact List.mem_of_find?_eq_some search

theorem findClass?_eq_of_nodup (distinct : (u.classPaths.map (·.2)).Nodup)
    (listed : (id, path) ∈ u.classPaths) : u.findClass? path = some id := by
  obtain ⟨found, known, member⟩ := findClass?_of_mem listed
  have same := List.inj_on_of_nodup_map distinct member listed rfl
  cases same
  exact known

theorem pathOf?_of_once (once : (u.classPaths.map (·.1)).Nodup)
    (listed : (id, path) ∈ u.classPaths) : u.pathOf? id = some path := by
  cases search : u.classPaths.find? fun entry => entry.1 == id with
  | none =>
    have missing := List.find?_eq_none.mp search _ listed
    simp at missing
  | some entry =>
    have same : entry.1 = id := by simpa using List.find?_some search
    have equal := List.inj_on_of_nodup_map once (List.mem_of_find?_eq_some search) listed same
    simp only [pathOf?, search, equal, Option.map_some]

end Find

/-- How the paths of a unit list its classes and find them. -/
structure Listed (u : CompilationUnit) : Prop where
  /-- The walk with a stack ends, and gives the paths. -/
  walk : ∀ visited,
    u.Visits (u.topLevel.map fun id => (id, (u.nameOf? id).getD "")) visited ↔
      visited = u.classPaths
  once : (u.classPaths.map (·.1)).Perm (List.range u.classes.length)
  order : u.classPaths.Pairwise (Arranged.Before u)
  path : ∀ entry ∈ u.classPaths, ∃ c, u.class? entry.1 = some c ∧
    ((entry.1 ∈ u.topLevel ∧ entry.2 = c.name) ∨
      ∃ around ∈ u.classPaths, ∃ d, u.class? around.1 = some d ∧ entry.1 ∈ d.nested ∧
        entry.2 = around.2 ++ "." ++ c.name)
  finds : ∀ id path, (id, path) ∈ u.classPaths →
    ∃ found, u.findClass? path = some found ∧ (found, path) ∈ u.classPaths
  distinct : (u.classPaths.map (·.2)).Nodup → ∀ id < u.classes.length,
    ∃ path, u.pathOf? id = some path ∧ u.findClass? path = some id

theorem Arranged.listed {u : CompilationUnit} (arranged : u.Arranged) (spread : u.Spread) :
    u.Listed where
  walk := fun _ =>
    ⟨fun visits => visits.unique arranged.visits_classPaths, fun same =>
      same ▸ arranged.visits_classPaths⟩
  once := arranged.ids_perm
  order := arranged.before_classPaths spread
  path := fun entry member => by
    obtain ⟨id, top, inside⟩ := List.mem_flatMap.mp member
    obtain ⟨c, known, here | ⟨around, listed, d, named, nested, path⟩⟩ :=
      arranged.path_within (arranged.lt_of_topLevel top) none entry inside
    · exact ⟨c, known, .inl ⟨here.1 ▸ top, here.2⟩⟩
    · exact ⟨c, known, .inr ⟨around, List.mem_flatMap.mpr ⟨id, top, listed⟩, d, named, nested,
        path⟩⟩
  finds := fun _ _ listed => findClass?_of_mem listed
  distinct := fun different id below => by
    have member := arranged.ids_perm.mem_iff.mpr (List.mem_range.mpr below)
    obtain ⟨⟨same, path⟩, listed, rfl⟩ := List.mem_map.mp member
    have once := arranged.ids_perm.nodup_iff.mpr List.nodup_range
    exact ⟨path, pathOf?_of_once once listed, findClass?_eq_of_nodup different listed⟩

end CreatorSynth.CompilationUnit
