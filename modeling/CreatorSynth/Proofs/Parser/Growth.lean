import Mathlib.Data.List.Range
import CreatorSynth.Proofs.Decl.Arena
import CreatorSynth.Proofs.Parser.Places

/-! The classes a parser adds. A class is added behind those of its body, and takes the place of
those its members name: they are named once, and no class outside names them. -/
namespace CreatorSynth

/-- More classes were read. Those that no new class names are `roots`, and each new one is named
once, there or by a class that was added later. -/
def Cursor.Grows (c : Cursor) (roots : List Nat) (c' : Cursor) : Prop :=
  ∃ new, c'.classes = c.classes ++ new ∧
    (roots ++ new.flatMap ClassDecl.nested).Perm (List.range' c.classes.length new.length) ∧
    ∀ (i : Nat) (d : ClassDecl), new[i]? = some d →
      ∀ inner : Nat, inner ∈ d.nested → inner < c.classes.length + i

namespace Cursor.Grows

variable {c mid c' : Cursor} {roots more : List Nat}

theorem of_same (same : c'.classes = c.classes) : c.Grows [] c' :=
  ⟨[], by rw [same, List.append_nil], .nil, nofun⟩

theorem trans (first : c.Grows roots mid) (second : mid.Grows more c') :
    c.Grows (roots ++ more) c' := by
  obtain ⟨new, same, once, below⟩ := first
  obtain ⟨newer, same', once', below'⟩ := second
  have length : mid.classes.length = c.classes.length + new.length := by
    rw [same, List.length_append]
  refine ⟨new ++ newer, by rw [same', same, List.append_assoc], ?_,
    fun i d found inner member => ?_⟩
  · rw [List.flatMap_append, List.length_append, ← List.range'_append_1, ← length]
    refine List.Perm.trans ?_ (once.append once')
    rw [List.append_assoc, List.append_assoc]
    refine List.Perm.append_left _ ?_
    rw [← List.append_assoc, ← List.append_assoc]
    exact List.Perm.append_right _ List.perm_append_comm
  · rcases Nat.lt_or_ge i new.length with here | behind
    · rw [List.getElem?_append_left here] at found
      exact below i d found inner member
    · rw [List.getElem?_append_right behind] at found
      have less := below' (i - new.length) d found inner member
      omega

theorem close {d : ClassDecl} (body : c.Grows d.nested mid)
    (classes : c'.classes = mid.classes ++ [d]) : c.Grows [mid.classes.length] c' := by
  obtain ⟨new, same, once, below⟩ := body
  have length : mid.classes.length = c.classes.length + new.length := by
    rw [same, List.length_append]
  refine ⟨new ++ [d], by rw [classes, same, List.append_assoc], ?_,
    fun i e found inner member => ?_⟩
  · rw [List.flatMap_append, List.flatMap_singleton, List.length_append, List.length_singleton,
      List.range'_1_concat, ← length]
    refine (List.perm_append_comm.trans ?_)
    refine List.Perm.append_right _ ?_
    exact List.perm_append_comm.trans once
  · rcases Nat.lt_or_ge i new.length with here | behind
    · rw [List.getElem?_append_left here] at found
      exact below i e found inner member
    · have last : i < (new ++ [d]).length := (List.getElem?_eq_some_iff.mp found).1
      rw [List.length_append, List.length_singleton] at last
      have equal : i = new.length := by omega
      rw [equal, List.getElem?_concat_length] at found
      cases found
      have named := once.mem_iff.mp (List.mem_append_left _ member)
      rw [List.mem_range'_1] at named
      omega

end Cursor.Grows

namespace Parser

/-- A parser that reads no class. -/
class Quiet {α : Type} (p : Parser α) : Prop where
  classes : ∀ {src c a c'}, p.on src c = .ok (a, c') → c'.classes = c.classes

section Quiet

variable {α β : Type} {p q : Parser α} {f : α → Parser β}

instance (priority := low) Quiet.of_contained
    [Contained (List.replicate 0 .rbrace) p] : Quiet p where
  classes := classes_of_contained

instance Quiet.bind [Quiet p] [more : ∀ a, Quiet (f a)] : Quiet (p >>= f) where
  classes run := by
    obtain ⟨a, mid, first, second⟩ := on_bind_eq_ok.mp run
    exact ((more a).classes second).trans (Quiet.classes first)

instance Quiet.ite {condition : Prop} [Decidable condition] [Quiet p] [Quiet q] :
    Quiet (if condition then p else q) := by
  split <;> assumption

instance Quiet.repeatWithin (step : Parser (Option α)) [Quiet step] (bound : Nat) :
    Quiet (repeatWithin step bound) := by
  induction bound with
  | zero => exact ⟨nofun⟩
  | succ bound ih =>
    refine @Quiet.bind _ _ _ _ _ fun found => ?_
    split <;> infer_instance

instance Quiet.many (step : Parser (Option α)) [Quiet step] : Quiet (many step) := by
  unfold Parser.many
  infer_instance

instance : Quiet advance where
  classes {src c a c'} run := by
    rw [on_advance] at run
    cases run
    exact c.classes_next

instance (t : Token) : Quiet (acceptToken t) where
  classes {src c a c'} run := by
    rw [on_acceptToken] at run
    split at run <;> cases run
    · exact c.classes_next
    · rfl

instance (s : Symbol) : Quiet (accept s) :=
  inferInstanceAs (Quiet (acceptToken _))

instance (s : Symbol) : Quiet (expect s) := by
  unfold expect
  infer_instance

instance : Quiet initializer where
  classes {src c a c'} run := by
    rw [initializer, on_bind_of_ok on_nextStart] at run
    obtain ⟨_, _, behind⟩ := of_passing (g := id) run
    have same := Quiet.classes behind
    exact same

instance : Quiet initializer? := by
  unfold initializer?
  infer_instance

instance (name : String) : Quiet (declarator name) := by
  unfold declarator
  infer_instance

instance : Quiet nextDeclarator := by
  unfold nextDeclarator
  infer_instance

variable (modifiers : Modifiers) (typeParams : List TypeParam) (type : TypeRef)
  (className name : String) (start : Nat) (doc : Option String)

instance : Quiet (fieldRest modifiers type name start doc) := by
  unfold fieldRest
  infer_instance

instance : Quiet (methodOrFields modifiers typeParams start doc) := by
  unfold methodOrFields
  infer_instance

instance : Quiet (typedMember className modifiers start doc) := by
  unfold typedMember
  infer_instance

end Quiet

section Run

variable {src : Source} {c c' : Cursor} {members : List Member} {id : ClassId}

/-- A parser of members adds the classes they name. -/
def Adds (c : Cursor) (members : List Member) (c' : Cursor) : Prop :=
  c.Grows (members.filterMap Member.nested?) c'

theorem Adds.none (same : c'.classes = c.classes) : Adds c [] c' :=
  .of_same same

theorem Adds.leaves {start : Nat} {last : Cursor} (leaves : Leaves start last members)
    (same : c'.classes = c.classes) : Adds c members c' := by
  have unnamed : members.filterMap Member.nested? = [] :=
    List.filterMap_eq_nil_iff.mpr leaves.leaf
  rw [Adds, unnamed]
  exact .of_same same

theorem Adds.append {mid : Cursor} {more : List Member} (first : Adds c members mid)
    (second : Adds mid more c') : Adds c (members ++ more) c' := by
  rw [Adds, List.filterMap_append]
  exact first.trans second

theorem Adds.before {mid : Cursor} (same : mid.classes = c.classes) (rest : Adds mid members c') :
    Adds c members c' :=
  (Adds.none same).append rest

theorem Adds.after {mid : Cursor} (first : Adds c members mid) (same : c'.classes = mid.classes) :
    Adds c members c' := by
  have adds := first.append (.none same)
  rwa [List.append_nil] at adds

theorem enumConstantsWithin_adds {bound : Nat}
    (run : (enumConstantsWithin bound).on src c = .ok (members, c')) : Adds c members c' := by
  induction bound generalizing c members with
  | zero => cases run
  | succ bound ih =>
    rw [enumConstantsWithin] at run
    obtain ⟨ended, mid, first, run⟩ := on_bind_eq_ok.mp run
    refine .before (Quiet.classes first) ?_
    split at run
    · cases run
      exact .none rfl
    rw [on_bind_of_ok (on_sees _)] at run
    split at run
    · cases run
      exact .none rfl
    obtain ⟨constant, behind, one, run⟩ := on_bind_eq_ok.mp run
    obtain ⟨further, next, separated, run⟩ := on_bind_eq_ok.mp run
    have here : Adds mid [constant] behind :=
      .leaves (enumConstant_leaves one) (Quiet.classes one)
    have before := here.after (Quiet.classes separated)
    split at run
    · obtain ⟨others, last, rest, run⟩ := on_bind_eq_ok.mp run
      cases run
      exact before.append (ih rest)
    · obtain ⟨_, last, end', run⟩ := on_bind_eq_ok.mp run
      cases run
      exact before.after (Quiet.classes end')

theorem leadingConstants_adds {kind : ClassKind}
    (run : (leadingConstants kind).on src c = .ok (members, c')) : Adds c members c' := by
  unfold leadingConstants at run
  split at run
  · rw [enumConstants, on_bind_of_ok on_get] at run
    obtain ⟨found, mid, first, run⟩ := on_bind_eq_ok.mp run
    obtain ⟨_, last, closed, run⟩ := on_bind_eq_ok.mp run
    cases run
    exact (enumConstantsWithin_adds first).after (Quiet.classes closed)
  · cases run
    exact .none rfl

variable {kind : ClassKind} {member : Parser (List Member)}

theorem classBody_adds (each : ∀ {c ms c'}, member.on src c = .ok (ms, c') → Adds c ms c')
    (run : (classBody kind member).on src c = .ok (members, c')) : Adds c members c' := by
  obtain ⟨constants, mid, first, run⟩ := on_bind_eq_ok.mp run
  obtain ⟨others, last, rest, run⟩ := on_bind_eq_ok.mp run
  cases run
  refine (leadingConstants_adds first).append ?_
  refine many_induction (motive := fun c found c' => Adds c found.flatten c') ?_ ?_ rest
  · intro c c' ended
    rw [classStep_none ended]
    exact .none rfl
  · intro c mid c' found others stepped adds
    obtain ⟨_, more, one⟩ := classStep_some stepped
    exact (Adds.before (Quiet.classes more) (each one)).append adds

theorem bracedBody_adds {span : Span}
    (each : ∀ {c ms c'}, member.on src c = .ok (ms, c') → Adds c ms c')
    (run : (bracedBody kind member).on src c = .ok ((members, span), c')) : Adds c members c' := by
  rw [bracedBody, on_bind_of_ok on_nextStart] at run
  obtain ⟨_, opened, first, run⟩ := on_bind_eq_ok.mp run
  obtain ⟨_, rfl⟩ := on_expect_eq_ok first
  rw [on_bind_of_ok (on_raiseDocFloor _)] at run
  obtain ⟨found, mid, body, run⟩ := on_bind_eq_ok.mp run
  obtain ⟨_, closed, last, run⟩ := on_bind_eq_ok.mp run
  obtain ⟨_, rfl⟩ := on_expect_eq_ok last
  cases run
  have adds := (classBody_adds each body).after (Cursor.classes_next mid)
  exact Adds.before (Cursor.classes_next c) adds

/-- A class adds itself and those in it, and only it is left to be named. -/
theorem classOver_grows {member : String → Parser (List Member)} {modifiers : Modifiers}
    {start : Nat} {doc : Option String}
    (each : ∀ {name c ms c'}, (member name).on src c = .ok (ms, c') → Adds c ms c')
    (run : (classOver member modifiers start doc).on src c = .ok (id, c')) :
    c.Grows [id] c' := by
  obtain ⟨head, behind, last, d, first, body, _, rfl, _, _, classes⟩ := exists_of_classOver run
  exact .close (Adds.before (Quiet.classes first) (bracedBody_adds each body)) classes

theorem memberOver_adds {nested : Modifiers → Nat → Option String → Parser ClassId}
    {className : String}
    (inner : ∀ {modifiers start doc c id c'},
      (nested modifiers start doc).on src c = .ok (id, c') → c.Grows [id] c')
    (run : (memberOver nested className).on src c = .ok (members, c')) : Adds c members c' := by
  rw [memberOver, on_bind_of_ok on_nextStart] at run
  obtain ⟨ended, mid, first, run⟩ := on_bind_eq_ok.mp run
  rw [on_accept] at first
  split at first
  · cases first
    cases run
    exact .none (Cursor.classes_next c)
  cases first
  rw [if_neg Bool.false_ne_true] at run
  obtain ⟨found, mid, block, run⟩ := on_bind_eq_ok.mp run
  have blocked := Quiet.classes block
  cases found with
  | some block' =>
    cases run
    exact .leaves (initializerBlock?_leaves block) blocked
  | none =>
    rw [declaredMember, on_bind_of_ok (on_docBefore _)] at run
    obtain ⟨modifiers, behind, words, run⟩ := on_bind_eq_ok.mp run
    refine .before blocked (.before (Quiet.classes words) ?_)
    rw [on_bind_of_ok (on_upcoming 2)] at run
    split at run
    · obtain ⟨id, last, one, run⟩ := on_bind_eq_ok.mp run
      cases run
      exact inner one
    · obtain ⟨found, last, typed, run⟩ := on_bind_eq_ok.mp run
      obtain ⟨_, _, closed, run⟩ := on_bind_eq_ok.mp run
      have same := Quiet.classes typed
      cases closed
      cases run
      exact .leaves (typedMember_leaves typed) same

theorem classWithin_grows {depth : Nat} {modifiers : Modifiers} {start : Nat}
    {doc : Option String}
    (run : (classWithin depth modifiers start doc).on src c = .ok (id, c')) : c.Grows [id] c' := by
  induction depth generalizing modifiers start doc c id c' with
  | zero => cases run
  | succ depth ih => exact classOver_grows (memberOver_adds ih) run

theorem classDecl_grows {modifiers : Modifiers} {start : Nat} {doc : Option String}
    (run : (classDecl modifiers start doc).on src c = .ok (id, c')) : c.Grows [id] c' := by
  rw [classDecl, on_bind_of_ok on_get] at run
  exact classWithin_grows run

theorem item_grows {found : Item} (run : item.on src c = .ok (found, c')) :
    c.Grows (Item.declared? found).toList c' := by
  obtain ⟨ended, mid, first, run⟩ := on_bind_eq_ok.mp run
  rw [on_accept] at first
  split at first
  · cases first
    cases run
    exact .of_same (Cursor.classes_next c)
  cases first
  rw [if_neg Bool.false_ne_true, on_bind_of_ok on_nextStart, on_bind_of_ok (on_docBefore _)] at run
  obtain ⟨modifiers, behind, words, run⟩ := on_bind_eq_ok.mp run
  refine Cursor.Grows.trans (.of_same (Quiet.classes words)) ?_
  rw [on_bind_of_ok (on_upcoming 2)] at run
  unfold itemFrom at run
  split at run
  · obtain ⟨_, _, _, _, rfl, closes⟩ := packageItem_reads run
    exact .of_same closes.classes
  split at run
  · obtain ⟨_, _, _, _, rfl, _, closes⟩ := importItem_reads run
    exact .of_same closes.classes
  split at run
  · obtain ⟨id, last, read, run⟩ := on_bind_eq_ok.mp run
    cases run
    exact classDecl_grows read
  · rw [on_bind_of_ok on_nextStart] at run
    cases run

/-- Of all classes read, those no other one names are the ones at the top. -/
theorem unit_grows {u : CompilationUnit} (run : unit.on src c = .ok (u, c')) :
    c.Grows u.topLevel c' ∧ u.classes = c'.classes := by
  obtain ⟨items, last, each, run⟩ := on_bind_eq_ok.mp run
  rw [on_bind_of_ok on_get] at run
  cases run
  refine ⟨?_, rfl⟩
  rw [(CompilationUnit.madeOf_foldl items c'.classes).topLevel]
  refine many_induction (motive := fun c items c' =>
    c.Grows (items.filterMap Item.declared?) c') ?_ ?_ each
  · intro c c' ended
    rw [(unitStep_none ended).2]
    exact .of_same rfl
  · intro c mid c' found items stepped grows
    have both := (item_grows (unitStep_some stepped)).trans grows
    rw [List.filterMap_cons]
    cases declared : Item.declared? found with
    | none => rwa [declared] at both
    | some id => rwa [declared] at both

end Run

end Parser

namespace CompilationUnit

variable {text : String} {dialect : Dialect} {u : CompilationUnit}

theorem arranged_of_unit {located : List Located} {src : Source} {c' : Cursor}
    (run : Parser.unit.on src (Parser.start located) = .ok (u, c')) : u.Arranged := by
  obtain ⟨⟨new, same, once, below⟩, classes⟩ := Parser.unit_grows run
  have all : u.classes = new := classes.trans same
  constructor
  · intro id c found inner member
    rw [class?, all] at found
    have less := below id c found inner member
    rwa [Parser.start, List.length_nil, Nat.zero_add] at less
  · rw [all]
    rwa [Parser.start, List.length_nil, ← List.range_eq_range'] at once

theorem Placed.exists_of_nested {src : Source} {tokens : List Located}
    (placed : u.Placed src tokens) {c d : ClassDecl} {m : Member} {inner : ClassId}
    (here : c ∈ u.classes) (member : m ∈ c.members) (names : m.nested? = some inner)
    (found : u.class? inner = some d) : m = .nested inner d.span := by
  cases m <;> cases names
  obtain ⟨d', known, same⟩ := (placed.classes c here).nested _ _ member
  rw [found] at known
  cases known
  rw [same]

theorem Placed.spread {src : Source} {tokens : List Located} (placed : u.Placed src tokens) :
    u.Spread where
  forward := fun found => by
    have inside := (placed.classes _ (List.mem_of_getElem? found)).inside
    omega
  inside := fun {id c inner d} found nested known => by
    have here : c ∈ u.classes := List.mem_of_getElem? found
    obtain ⟨m, member, names⟩ := List.mem_filterMap.mp nested
    have span : m.span = d.span := by
      rw [placed.exists_of_nested here member names known]
      rfl
    have between := (placed.classes c here).members m member
    have inside := (placed.classes c here).inside
    rw [span] at between
    omega
  apart := fun {id c} found => by
    have here : c ∈ u.classes := List.mem_of_getElem? found
    refine List.pairwise_filterMap.mpr ((placed.classes c here).order.imp_of_mem ?_)
    intro m m' member member' apart inner names inner' names' d d' known known'
    have same := placed.exists_of_nested here member names known
    have same' := placed.exists_of_nested here member' names' known'
    rw [same, same'] at apart
    rcases apart with behind | ⟨f, _, field, _⟩
    · exact behind
    · cases field
  top := placed.order

end CompilationUnit

/-- The classes of a source that is read are named once each, an inner one has the smaller number,
and the paths list and find them. -/
theorem parseUnit_forest {text : String} {dialect : Dialect} {u : CompilationUnit}
    (read : parseUnit text dialect = .ok u) :
    (∀ id ∈ u.topLevel ++ u.classes.flatMap ClassDecl.nested, id < u.classes.length) ∧
    u.Arranged ∧ u.Listed := by
  obtain ⟨located, c', tokens, run⟩ := parseUnit_eq_ok.mp read
  have arranged := CompilationUnit.arranged_of_unit run
  have placed := CompilationUnit.placed_of_unit tokens run
  exact ⟨fun id member => List.mem_range.mp (arranged.once.mem_iff.mp member), arranged,
    arranged.listed placed.spread⟩

/-- A source with a class in another one and an interface behind them. -/
def threeClasses : String :=
  "class A \x7b class B \x7b\x7d \x7d interface C \x7b\x7d"

def threeClassesUnit : CompilationUnit :=
  ⟨none, [], 0,
    [⟨.ordinary, "B", .empty, [], none, [], [], [], none, ⟨18, 20⟩, ⟨10, 20⟩⟩,
     ⟨.ordinary, "A", .empty, [], none, [], [], [.nested 0 ⟨10, 20⟩], none, ⟨8, 22⟩, ⟨0, 22⟩⟩,
     ⟨.interface, "C", .empty, [], none, [], [], [], none, ⟨35, 37⟩, ⟨23, 37⟩⟩], [1, 2]⟩

theorem threeClasses_forest : parseUnit threeClasses .java = .ok threeClassesUnit ∧
    threeClassesUnit.classPaths = [(1, "A"), (0, "A.B"), (2, "C")] ∧
    ∀ id < 3, ∃ path, threeClassesUnit.pathOf? id = some path ∧
      threeClassesUnit.findClass? path = some id := by
  have read : parseUnit threeClasses .java = .ok threeClassesUnit :=
    eq_ok_of_toOption (by decide +kernel)
  exact ⟨read, by decide +kernel, (parseUnit_forest read).2.2.distinct (by decide +kernel)⟩

end CreatorSynth
