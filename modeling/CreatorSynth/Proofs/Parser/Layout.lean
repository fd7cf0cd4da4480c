import CreatorSynth.Proofs.Parser.Contained
import CreatorSynth.Proofs.Token.Places

/-! How declarations stand in the tokens of a source: a class around its braces, its members one
after another between them. -/
namespace CreatorSynth
open Located

/-- From the first token of a stretch through the last one. -/
def Span.over (ts : List Located) : Span :=
  let start := (ts.head?.map (·.start)).getD 0
  ⟨start, max ((ts.getLast?.map (·.stop)).getD 0) start⟩

theorem Span.over_eq {ts : List Located} {first last : Located} (begins : ts.head? = some first)
    (ends : ts.getLast? = some last) (order : InOrder ts) (some : ∀ t ∈ ts, t.start < t.stop) :
    Span.over ts = ⟨first.start, last.stop⟩ ∧ first.start < last.stop := by
  have forward : first.start < last.stop := by
    obtain ⟨front, rfl⟩ := List.head?_eq_some_iff.mp begins
    have first_some := some first List.mem_cons_self
    rw [List.getLast?_cons] at ends
    cases behind : front.getLast? with
    | none =>
      rw [behind] at ends
      cases ends
      exact first_some
    | some t =>
      rw [behind] at ends
      cases ends
      have inside := List.mem_of_getLast? behind
      have apart := (List.pairwise_cons.mp order).1 t inside
      have last_some := some t (List.mem_cons_of_mem _ inside)
      simp only [Option.getD_some]
      omega
  refine ⟨?_, forward⟩
  simp only [Span.over, begins, ends, Option.map_some, Option.getD_some, Span.mk.injEq, true_and]
  exact Nat.max_eq_left (Nat.le_of_lt forward)

theorem Span.exists_over {ts : List Located} (nonempty : ts ≠ []) (order : InOrder ts)
    (some : ∀ t ∈ ts, t.start < t.stop) :
    ∃ t ∈ ts, ∃ u ∈ ts, Span.over ts = ⟨t.start, u.stop⟩ ∧ t.start < u.stop :=
  have begins := List.head?_eq_some_head nonempty
  have ends := List.getLast?_eq_some_getLast nonempty
  ⟨_, List.mem_of_head? begins, _, List.mem_of_getLast? ends, Span.over_eq begins ends order some⟩

theorem getElem?_of_prefix {α : Type} {as bs : List α} (longer : as <+: bs) {i : Nat} {a : α}
    (known : as[i]? = some a) : bs[i]? = some a := by
  obtain ⟨more, rfl⟩ := longer
  rw [List.getElem?_append_left (List.getElem?_eq_some_iff.mp known).1, known]

/-- Two fields of one declaration. -/
def Member.Beside (m m' : Member) : Prop :=
  ∃ f f', m = .field f ∧ m' = .field f' ∧ f.span = f'.span ∧ f.modifiers = f'.modifiers ∧
    f.doc = f'.doc

/-- A nested class has the span of the class it refers to. -/
def Member.Refers (classes : List ClassDecl) (m : Member) : Prop :=
  ∀ id span, m = .nested id span → ∃ d, classes[id]? = some d ∧ d.span = span

theorem Member.Refers.mono {classes more : List ClassDecl} {m : Member}
    (refers : m.Refers classes) (extends' : classes <+: more) : m.Refers more := by
  intro id span same
  obtain ⟨d, found, equal⟩ := refers id span same
  exact ⟨d, getElem?_of_prefix extends' found, equal⟩

/-- The members read from one declaration. -/
structure Declared (classes : List ClassDecl) (taken : List Located) (members : List Member) :
    Prop where
  span : ∀ m ∈ members, m.span = Span.over taken
  refers : ∀ m ∈ members, m.Refers classes
  together : members.Pairwise Member.Beside

theorem Declared.nil (classes : List ClassDecl) (taken : List Located) :
    Declared classes taken [] :=
  ⟨nofun, nofun, .nil⟩

theorem Declared.mono {classes more : List ClassDecl} {taken : List Located}
    {members : List Member} (declared : Declared classes taken members)
    (extends' : classes <+: more) : Declared more taken members :=
  ⟨declared.span, fun m member => (declared.refers m member).mono extends', declared.together⟩

/-- Members laid out in a stretch of tokens, one declaration after another. -/
inductive Laid (classes : List ClassDecl) : List Located → List Member → Prop
  | nil : Laid classes [] []
  | declared {taken ts : List Located} {members more : List Member} (some : taken ≠ [])
      (first : Declared classes taken members) (others : Laid classes ts more) :
      Laid classes (taken ++ ts) (members ++ more)

namespace Laid

variable {classes : List ClassDecl} {ts us : List Located} {members more : List Member}

theorem append (first : Laid classes ts members) (second : Laid classes us more) :
    Laid classes (ts ++ us) (members ++ more) := by
  induction first with
  | nil => exact second
  | declared some first _ ih =>
    rw [List.append_assoc, List.append_assoc]
    exact .declared some first ih

theorem skip (classes : List ClassDecl) (ts : List Located) : Laid classes ts [] := by
  induction ts with
  | nil => exact .nil
  | cons t ts ih => exact .declared (List.cons_ne_nil t []) (.nil _ _) ih

theorem one (some : ts ≠ []) (declared : Declared classes ts members) :
    Laid classes ts members := by
  have laid := Laid.declared some declared .nil
  rwa [List.append_nil, List.append_nil] at laid

theorem mono {more : List ClassDecl} (laid : Laid classes ts members)
    (extends' : classes <+: more) : Laid more ts members := by
  induction laid with
  | nil => exact .nil
  | declared some first _ ih => exact .declared some (first.mono extends') ih

theorem refers (laid : Laid classes ts members) : ∀ m ∈ members, m.Refers classes := by
  induction laid with
  | nil => nofun
  | declared some first _ ih =>
    intro m member
    rcases List.mem_append.mp member with here | behind
    · exact first.refers m here
    · exact ih m behind

theorem covers (laid : Laid classes ts members) (order : InOrder ts)
    (some : ∀ t ∈ ts, t.start < t.stop) :
    ∀ m ∈ members, ∃ t ∈ ts, ∃ u ∈ ts, m.span = ⟨t.start, u.stop⟩ ∧ t.start < u.stop := by
  induction laid with
  | nil => nofun
  | @declared taken ts members more nonempty first _ ih =>
    have parts := List.pairwise_append.mp order
    intro m member
    rcases List.mem_append.mp member with here | behind
    · obtain ⟨t, t_inside, u, u_inside, whole, forward⟩ := Span.exists_over nonempty parts.1
        fun t inside => some t (List.mem_append_left _ inside)
      exact ⟨t, List.mem_append_left _ t_inside, u, List.mem_append_left _ u_inside,
        (first.span m here).trans whole, forward⟩
    · obtain ⟨t, t_inside, u, u_inside, known⟩ :=
        ih parts.2.1 (fun t inside => some t (List.mem_append_right _ inside)) m behind
      exact ⟨t, List.mem_append_right _ t_inside, u, List.mem_append_right _ u_inside, known⟩

/-- Members follow one another in the source, or belong to one declaration. -/
theorem pairwise (laid : Laid classes ts members) (order : InOrder ts)
    (some : ∀ t ∈ ts, t.start < t.stop) :
    members.Pairwise fun m m' => m.span.stop ≤ m'.span.start ∨ m.Beside m' := by
  induction laid with
  | nil => exact .nil
  | @declared taken ts members more nonempty first others ih =>
    have parts := List.pairwise_append.mp order
    have here := (Laid.one nonempty first).covers parts.1
      fun t inside => some t (List.mem_append_left _ inside)
    have behind := others.covers parts.2.1
      fun t inside => some t (List.mem_append_right _ inside)
    refine List.pairwise_append.mpr ⟨first.together.imp .inr,
      ih parts.2.1 fun t inside => some t (List.mem_append_right _ inside), ?_⟩
    intro m m_here m' m'_behind
    obtain ⟨_, _, u, u_inside, span, _⟩ := here m m_here
    obtain ⟨t, t_inside, _, _, span', _⟩ := behind m' m'_behind
    rw [span, span']
    exact .inl (parts.2.2 u u_inside t t_inside)

end Laid

/-- A stretch that closes so many braces opened in front of it and nests otherwise. -/
def Sheds (braces : Nat) (ts : List Located) : Prop :=
  awaitBehind (List.replicate braces .rbrace) ts = some []

/-- Where only braces are open, the stretch closes some of them at most. -/
def Braced (ts : List Located) : Prop :=
  ∀ n, awaitBehind (List.replicate n .rbrace) ts ≠ none → ∃ braces ≤ n, Sheds braces ts

section Braced

variable {ts us : List Located} {n braces more : Nat}

theorem Sheds.awaitBehind (sheds : Sheds braces ts) (outer : Nat) :
    awaitBehind (List.replicate (braces + outer) .rbrace) ts =
      some (List.replicate outer .rbrace) := by
  rw [← List.replicate_append_replicate]
  exact awaitBehind_under sheds _

theorem Sheds.append (first : Sheds braces ts) (second : Sheds more us) :
    Sheds (braces + more) (ts ++ us) := by
  rw [Sheds, awaitBehind_append, first.awaitBehind]
  exact second

theorem Nested.sheds (nested : Nested ts) : Sheds 0 ts :=
  nested

theorem Braced.append (first : Braced ts) (second : Braced us) : Braced (ts ++ us) := by
  intro n read
  rw [awaitBehind_append] at read
  obtain ⟨braces, le, sheds⟩ := first n fun stuck => read (by rw [stuck, Option.bind_none])
  obtain ⟨outer, rfl⟩ := Nat.exists_eq_add_of_le le
  rw [sheds.awaitBehind, Option.bind_some] at read
  obtain ⟨others, le', sheds'⟩ := second outer read
  exact ⟨braces + others, Nat.add_le_add_left le' _, sheds.append sheds'⟩

theorem Braced.of_level (level : ∀ n, Level (List.replicate n .rbrace) ts) : Braced ts :=
  fun n read => ⟨0, Nat.zero_le n, (level n read).sheds⟩

theorem Braced.nil : Braced [] :=
  .of_level fun _ => .of_nested .nil

/-- Where everything nests, a stretch does in front of another one, and this one behind it. -/
theorem Braced.nested_left (first : Braced ts) (nested : Nested (ts ++ us)) :
    Nested ts ∧ Nested us := by
  have read : awaitBehind (List.replicate 0 .rbrace) ts ≠ none := fun stuck => by
    rw [Nested, awaitBehind_append] at nested
    rw [List.replicate_zero] at stuck
    rw [stuck] at nested
    cases nested
  obtain ⟨braces, le, sheds⟩ := first 0 read
  obtain rfl := Nat.le_zero.mp le
  have here : Nested ts := sheds
  refine ⟨here, ?_⟩
  rwa [Nested, awaitBehind_append, here.awaitBehind, Option.bind_some] at nested

/-- A stretch in braces closes as many others as what is inside. -/
theorem Braced.enclosed {opening closing : Located} (opens : opening.token = .symbol .lbrace)
    (closes : closing.token = .symbol .rbrace) (inner : Braced ts) :
    Braced (opening :: ts ++ [closing]) ∧ (Nested (opening :: ts ++ [closing]) → Nested ts) := by
  have opened : ∀ n, awaitBehind (List.replicate n .rbrace) (opening :: ts ++ [closing]) =
      (awaitBehind (List.replicate (n + 1) .rbrace) ts).bind fun next =>
        awaitBehind next [closing] := fun n => by
    rw [List.cons_append, CreatorSynth.awaitBehind, opens, List.replicate_succ]
    exact awaitBehind_append
  have closed : ∀ n, awaitBehind (List.replicate (n + 1) .rbrace) [closing] =
      some (List.replicate n .rbrace) := fun n => by
    rw [CreatorSynth.awaitBehind, closes]
    rfl
  have stuck : awaitBehind [] [closing] = none := by
    rw [CreatorSynth.awaitBehind, closes]
    rfl
  have through (n : Nat)
      (read : awaitBehind (List.replicate n .rbrace) (opening :: ts ++ [closing]) ≠ none) :
      ∃ braces ≤ n, Sheds braces ts := by
    rw [opened] at read
    obtain ⟨braces, le, sheds⟩ := inner (n + 1) fun fails => read (by rw [fails, Option.bind_none])
    refine ⟨braces, ?_, sheds⟩
    -- With one more brace closed inside, nothing is left for the closing one.
    rcases Nat.lt_or_eq_of_le le with less | rfl
    · omega
    · rw [show awaitBehind (List.replicate (n + 1) .rbrace) ts = some [] from sheds,
        Option.bind_some, stuck] at read
      exact absurd rfl read
  constructor
  · intro n read
    obtain ⟨braces, le, sheds⟩ := through n read
    refine ⟨braces, le, ?_⟩
    rw [Sheds, opened, sheds.awaitBehind 1, Option.bind_some]
    exact closed 0
  · intro nested
    obtain ⟨braces, le, sheds⟩ := through 0 (by
      rw [List.replicate_zero, show awaitBehind [] _ = some [] from nested]
      exact Option.some_ne_none _)
    obtain rfl := Nat.le_zero.mp le
    exact sheds

end Braced

/-- How a class stands in a stretch: its head, and its members in braces. Where the brackets of the
stretch nest, those between the braces do by themselves, so the braces belong together. -/
structure ClassDecl.Stands (classes : List ClassDecl) (ts : List Located) (c : ClassDecl) : Prop
    where
  placed : ∃ before head opening inner closing after,
    ts = before ++ (head ++ (opening :: inner ++ [closing])) ++ after ∧
    opening.token = .symbol .lbrace ∧ closing.token = .symbol .rbrace ∧
    c.span = Span.over (head ++ (opening :: inner ++ [closing])) ∧
    c.bodySpan = Span.over (opening :: inner ++ [closing]) ∧
    Laid classes inner c.members ∧ (Nested ts → Nested inner)

theorem ClassDecl.Stands.mono {classes more : List ClassDecl} {ts : List Located} {c : ClassDecl}
    (stands : c.Stands classes ts) (extends' : classes <+: more) : c.Stands more ts := by
  obtain ⟨before, head, opening, inner, closing, after, whole, opens, closes, span, body, laid,
    nested⟩ := stands.placed
  exact ⟨before, head, opening, inner, closing, after, whole, opens, closes, span, body,
    laid.mono extends', nested⟩

theorem ClassDecl.Stands.within {classes : List ClassDecl} {ts front back : List Located}
    {c : ClassDecl} (stands : c.Stands classes ts)
    (nested : Nested (front ++ ts ++ back) → Nested ts) :
    c.Stands classes (front ++ ts ++ back) := by
  obtain ⟨before, head, opening, inner, closing, after, rfl, opens, closes, span, body, laid,
    inside⟩ := stands.placed
  refine ⟨front ++ before, head, opening, inner, closing, after ++ back, ?_, opens, closes, span,
    body, laid, inside ∘ nested⟩
  simp only [List.append_assoc]

/-- From a cursor to a later one past tokens in which the classes read in between stand. -/
structure Cursor.Reads (c : Cursor) (taken : List Located) (c' : Cursor) : Prop where
  moves : c.Moves taken c'
  braced : Braced taken
  classes : ∀ d ∈ c'.classes, d ∈ c.classes ∨ d.Stands c'.classes taken

namespace Cursor.Reads

variable {c mid c' : Cursor} {taken more : List Located}

theorem of_past (past : ∀ n, c.Past (List.replicate n .rbrace) c') :
    ∃ taken, c.Reads taken c' := by
  obtain ⟨same, taken, moves, _⟩ := past 0
  refine ⟨taken, moves, .of_level fun n => ?_, fun d member => .inl (same ▸ member)⟩
  obtain ⟨_, taken', moves', level⟩ := past n
  rwa [List.append_cancel_right (moves.rest.symm.trans moves'.rest)]

theorem refl (c : Cursor) : c.Reads [] c :=
  ⟨.refl c, .nil, fun _ member => .inl member⟩

theorem trans (first : c.Reads taken mid) (second : mid.Reads more c') :
    c.Reads (taken ++ more) c' where
  moves := first.moves.trans second.moves
  braced := first.braced.append second.braced
  classes := by
    intro d member
    rcases second.classes d member with old | stands
    · rcases first.classes d old with older | stands
      · exact .inl older
      · right
        exact @ClassDecl.Stands.within _ _ [] more _ (stands.mono second.moves.classes)
          fun nested => (first.braced.nested_left nested).1
    · right
      have within := @ClassDecl.Stands.within _ _ taken [] _ stands fun nested =>
        (first.braced.nested_left (by rwa [List.append_nil] at nested)).2
      rwa [List.append_nil] at within

theorem taken_eq (reads : c.Reads taken c') (moves : c.Moves more c') : more = taken :=
  List.append_cancel_right (moves.rest.symm.trans reads.moves.rest)

end Cursor.Reads

theorem Cursor.Moves.over {c c' : Cursor} {taken : List Located} (moves : c.Moves taken c')
    (some : taken ≠ []) (otherwise : Nat) :
    Span.over taken =
      let start := (c.rest.head?.map (·.start)).getD otherwise
      ⟨start, max c'.lastStop start⟩ := by
  obtain ⟨first, front, begins⟩ := List.exists_cons_of_ne_nil some
  have head : c.rest.head? = taken.head? := by
    rw [moves.rest, begins]
    rfl
  have last : c'.lastStop = (taken.getLast?.map (·.stop)).getD 0 := by
    rw [moves.lastStop, begins, List.getLast?_cons]
    rfl
  rw [Span.over, last, head, begins]
  rfl

end CreatorSynth
