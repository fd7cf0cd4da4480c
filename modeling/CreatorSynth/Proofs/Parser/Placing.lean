import CreatorSynth.Proofs.Parser.Layout

/-! The parsers of members, classes and whole sources, and how what they read stands in the tokens
they take. -/
namespace CreatorSynth.Parser

/-- The classes that a parser reads stand in what it takes. -/
class Reading {α : Type} (p : Parser α) : Prop where
  reads : ∀ {src c a c'}, p.on src c = .ok (a, c') → ∃ taken, c.Reads taken c'

section Rules

variable {α β : Type} {p q : Parser α} {f : α → Parser β}

instance (priority := low) Reading.of_contained
    [contained : ∀ n, Contained (List.replicate n .rbrace) p] : Reading p where
  reads run := Cursor.Reads.of_past fun n => (contained n).past run

instance Reading.bind [Reading p] [more : ∀ a, Reading (f a)] : Reading (p >>= f) where
  reads run := by
    obtain ⟨a, mid, first, second⟩ := on_bind_eq_ok.mp run
    obtain ⟨taken, before⟩ := Reading.reads first
    obtain ⟨others, behind⟩ := (more a).reads second
    exact ⟨_, before.trans behind⟩

instance Reading.ite {condition : Prop} [Decidable condition] [Reading p] [Reading q] :
    Reading (if condition then p else q) := by
  split <;> assumption

instance Reading.repeatWithin (step : Parser (Option α)) [Reading step] (bound : Nat) :
    Reading (repeatWithin step bound) := by
  induction bound with
  | zero => exact ⟨nofun⟩
  | succ bound ih =>
    refine @Reading.bind _ _ _ _ _ fun found => ?_
    split <;> infer_instance

instance Reading.many (step : Parser (Option α)) [Reading step] : Reading (many step) := by
  unfold Parser.many
  infer_instance

/-- What holds of the answers of a loop, step by step from its end. -/
theorem many_induction {src : Source} {step : Parser (Option α)}
    {motive : Cursor → List α → Cursor → Prop}
    (done : ∀ {c c'}, step.on src c = .ok (none, c') → motive c [] c')
    (more : ∀ {c mid c' a as}, step.on src c = .ok (some a, mid) → motive mid as c' →
      motive c (a :: as) c')
    {c c' : Cursor} {as : List α} (run : (many step).on src c = .ok (as, c')) :
    motive c as c' := by
  rw [Parser.many, on_bind_of_ok on_get] at run
  generalize c.rest.length + 1 = bound at run
  induction bound generalizing c as with
  | zero => cases run
  | succ bound ih =>
    rw [Parser.repeatWithin] at run
    obtain ⟨found, mid, first, run⟩ := on_bind_eq_ok.mp run
    cases found with
    | none =>
      cases run
      exact done first
    | some a =>
      obtain ⟨others, last, rest, same⟩ := on_bind_eq_ok.mp run
      cases same
      exact more first (ih rest)

end Rules

section Fields

variable {src : Source}

/-- Tokens passed over by a scanner that may go on where no bracket is open, whatever comes. -/
inductive PassedOver : (depth : Nat) → List Located → Prop
  | done : PassedOver 0 []
  | token {depth : Nat} {t : Located} {ts : List Located}
      (more : PassedOver (t.token.nest depth) ts) : PassedOver depth (t :: ts)

theorem PassedOver.sheds {depth : Nat} {ts : List Located} (passed : PassedOver depth ts)
    {inner : List Symbol} {n : Nat} (height : inner.length = depth)
    (read : awaitBehind (inner ++ List.replicate n .rbrace) ts ≠ none) :
    ∃ braces ≤ n, awaitBehind (inner ++ List.replicate braces .rbrace) ts = some [] := by
  induction passed generalizing inner n with
  | done =>
    rw [List.eq_nil_of_length_eq_zero height]
    exact ⟨0, Nat.zero_le n, rfl⟩
  | @token depth t ts more ih =>
    simp only [awaitBehind] at read ⊢
    rcases t.token.await_cases with ⟨s, closing, _, _, opens, nest⟩ |
      ⟨closing, _, _, closes, nest⟩ | ⟨plain, nest⟩
    · simp only [opens, Option.bind_some] at read ⊢
      exact @ih (closing :: inner) n (by rw [nest, List.length_cons, height]) read
    · cases inner with
      | nil =>
        subst height
        cases n with
        | zero =>
          rw [List.replicate_zero, List.append_nil, closes] at read
          exact absurd rfl read
        | succ n =>
          -- A brace opened in front of the stretch is closed here.
          rw [List.nil_append, List.replicate_succ, closes, List.head?_cons] at read
          split at read
          · rename_i same
            obtain ⟨braces, le, sheds⟩ := @ih [] n (by rw [nest]; rfl) read
            refine ⟨braces + 1, Nat.succ_le_succ le, ?_⟩
            rw [List.nil_append, List.replicate_succ, closes, List.head?_cons, if_pos same]
            exact sheds
          · exact absurd rfl read
      | cons first inner =>
        rw [closes, List.cons_append, List.head?_cons] at read
        split at read
        · rename_i same
          obtain ⟨braces, le, sheds⟩ := ih (by rw [nest, ← height]; rfl) read
          refine ⟨braces, le, ?_⟩
          rw [closes, List.cons_append, List.head?_cons, if_pos same]
          exact sheds
        · exact absurd rfl read
    · simp only [plain, Option.bind_some] at read ⊢
      exact ih (by rw [nest, height]) read

theorem PassedOver.braced {ts : List Located} (passed : PassedOver 0 ts) : Braced ts :=
  fun n read => @PassedOver.sheds 0 ts passed [] n rfl read

theorem passInitializer_passed {depth angles : Nat} {previous : Option Token}
    {passed : Option Nat} {ts : List Located} {found : Source.Passed}
    (run : src.passInitializer depth angles previous passed ts = .ok found) :
    ∃ taken, ts = taken ++ found.2 ∧ PassedOver depth taken := by
  induction ts generalizing depth angles previous passed with
  | nil => cases run
  | cons t ts ih =>
    have further (run : src.passInitializer (t.token.nest depth)
        (t.token.nestAngles previous angles) (some t.token) (some t.stop) ts = .ok found) :
        ∃ taken, t :: ts = taken ++ found.2 ∧ PassedOver depth taken := by
      obtain ⟨taken, whole, passed⟩ := ih run
      exact ⟨t :: taken, by rw [whole, List.cons_append], .token passed⟩
    simp only [Source.passInitializer, bind, Except.bind, pure, Except.pure] at run
    split at run
    · rename_i shallow
      rw [shallow.1] at further ⊢
      split at run
      · cases run
        exact ⟨[], rfl, .done⟩
      · split at run
        · cases run
        · split at run
          · cases run
            exact ⟨[], rfl, .done⟩
          · exact further (by rwa [shallow.1] at run)
    · exact further run

instance : Reading initializer where
  reads {src c a c'} run := by
    rw [initializer, on_bind_of_ok on_nextStart] at run
    obtain ⟨passed, found, run⟩ := of_passing (g := id) run
    obtain ⟨taken, moves⟩ := (passInitializer_passes found).moves
    obtain ⟨taken', whole, passed⟩ := passInitializer_passed found
    obtain rfl := List.append_cancel_right (moves.rest.symm.trans whole)
    obtain ⟨more, behind⟩ := Reading.reads run
    exact ⟨_, Cursor.Reads.trans ⟨moves, passed.braced, fun _ member => .inl member⟩ behind⟩

instance : Reading initializer? := by
  unfold initializer?
  infer_instance

instance (name : String) : Reading (declarator name) := by
  unfold declarator
  infer_instance

instance : Reading nextDeclarator := by
  unfold nextDeclarator
  infer_instance

variable (modifiers : Modifiers) (typeParams : List TypeParam) (returnType : Option TypeRef)
  (type : TypeRef) (className name : String) (start : Nat) (doc : Option String)

instance : Reading (fieldRest modifiers type name start doc) := by
  unfold fieldRest
  infer_instance

instance : Reading (methodOrFields modifiers typeParams start doc) := by
  unfold methodOrFields
  infer_instance

instance : Reading (typedMember className modifiers start doc) := by
  unfold typedMember
  infer_instance

/-- Members other than classes, from an offset through the token consumed last. -/
structure Leaves (start : Nat) (c : Cursor) (members : List Member) : Prop where
  span : ∀ m ∈ members, m.span = ⟨start, max c.lastStop start⟩
  leaf : ∀ m ∈ members, m.nested? = none
  together : members.Pairwise Member.Beside

theorem Leaves.one {start : Nat} {c : Cursor} {m : Member}
    (span : m.span = ⟨start, max c.lastStop start⟩) (leaf : m.nested? = none) :
    Leaves start c [m] := by
  refine ⟨fun m' member => ?_, fun m' member => ?_, List.pairwise_singleton _ _⟩
  · rwa [List.mem_singleton.mp member]
  · rwa [List.mem_singleton.mp member]

variable {modifiers typeParams returnType type className name start doc} {c c' : Cursor}

theorem methodRest_span {m : MethodDecl}
    (run : (methodRest modifiers typeParams returnType name start doc).on src c = .ok (m, c')) :
    m.span = ⟨start, max c'.lastStop start⟩ := by
  obtain ⟨_, _, _, run⟩ := on_bind_eq_ok.mp run
  obtain ⟨_, _, _, run⟩ := on_bind_eq_ok.mp run
  obtain ⟨_, _, _, run⟩ := on_bind_eq_ok.mp run
  obtain ⟨_, _, _, run⟩ := on_bind_eq_ok.mp run
  cases run
  rfl

theorem fieldRest_leaves {members : List Member}
    (run : (fieldRest modifiers type name start doc).on src c = .ok (members, c')) :
    Leaves start c' members := by
  obtain ⟨first, _, _, run⟩ := on_bind_eq_ok.mp run
  obtain ⟨others, _, _, run⟩ := on_bind_eq_ok.mp run
  obtain ⟨_, last, _, run⟩ := on_bind_eq_ok.mp run
  cases run
  refine ⟨fun m member => ?_, fun m member => ?_, List.pairwise_map.mpr ?_⟩
  · obtain ⟨_, _, rfl⟩ := List.mem_map.mp member
    rfl
  · obtain ⟨_, _, rfl⟩ := List.mem_map.mp member
    rfl
  · exact List.Pairwise.imp (fun _ => ⟨_, _, rfl, rfl, rfl, rfl, rfl⟩)
      (List.pairwise_of_forall fun _ _ => trivial)

theorem typedMember_leaves {members : List Member}
    (run : (typedMember className modifiers start doc).on src c = .ok (members, c')) :
    Leaves start c' members := by
  obtain ⟨typeParams, _, _, run⟩ := on_bind_eq_ok.mp run
  rw [on_bind_of_ok (on_upcoming 2)] at run
  split at run
  · obtain ⟨m, _, made, run⟩ := on_bind_eq_ok.mp run
    cases run
    obtain ⟨_, _, _, made⟩ := on_bind_eq_ok.mp made
    obtain ⟨_, _, _, made⟩ := on_bind_eq_ok.mp made
    cases made
    exact .one rfl rfl
  · split at run
    · obtain ⟨_, _, _, run⟩ := on_bind_eq_ok.mp run
      obtain ⟨m, _, made, run⟩ := on_bind_eq_ok.mp run
      cases run
      exact .one (methodRest_span made) rfl
    · obtain ⟨_, _, _, run⟩ := on_bind_eq_ok.mp run
      obtain ⟨_, _, _, run⟩ := on_bind_eq_ok.mp run
      rw [on_bind_of_ok (on_sees _)] at run
      split at run
      · obtain ⟨m, _, made, run⟩ := on_bind_eq_ok.mp run
        cases run
        exact .one (methodRest_span made) rfl
      · exact fieldRest_leaves run

end Fields

section Bodies

variable {src : Source} {c c' : Cursor} {members : List Member}

theorem Cursor.Moves.ne_nil {taken : List Located} (moves : c.Moves taken c')
    (shorter : c'.rest.length < c.rest.length) : taken ≠ [] := by
  rintro rfl
  rw [moves.rest, List.nil_append] at shorter
  exact Nat.lt_irrefl _ shorter

theorem Leaves.declared {taken : List Located} {otherwise : Nat} (moves : c.Moves taken c')
    (some : taken ≠ [])
    (leaves : Leaves ((c.rest.head?.map (·.start)).getD otherwise) c' members)
    (classes : List ClassDecl) : Declared classes taken members where
  span := fun m member => by rw [moves.over some otherwise, leaves.span m member]
  refers := fun m member id span same => by
    have leaf := leaves.leaf m member
    rw [same] at leaf
    cases leaf
  together := leaves.together

theorem enumConstant_leaves {constant : Member}
    (run : enumConstant.on src c = .ok (constant, c')) :
    Leaves ((c.rest.head?.map (·.start)).getD src.stop) c' [constant] := by
  rw [enumConstant, on_bind_of_ok on_nextStart] at run
  obtain ⟨_, _, _, run⟩ := on_bind_eq_ok.mp run
  obtain ⟨_, _, _, run⟩ := on_bind_eq_ok.mp run
  obtain ⟨_, _, _, run⟩ := on_bind_eq_ok.mp run
  obtain ⟨_, _, _, run⟩ := on_bind_eq_ok.mp run
  cases run
  exact .one rfl rfl

/-- A class body reads its tokens and lays its members out in them. -/
def Lays (c : Cursor) (members : List Member) (c' : Cursor) : Prop :=
  ∃ taken, c.Reads taken c' ∧ Laid c'.classes taken members

theorem Lays.append {mid : Cursor} {more : List Member} (first : Lays c members mid)
    (second : Lays mid more c') : Lays c (members ++ more) c' := by
  obtain ⟨taken, reads, laid⟩ := first
  obtain ⟨others, reads', laid'⟩ := second
  exact ⟨_, reads.trans reads', (laid.mono reads'.moves.classes).append laid'⟩

theorem Lays.nothing {α : Type} {p : Parser α} [Reading p] {a : α}
    (run : p.on src c = .ok (a, c')) : Lays c [] c' := by
  obtain ⟨taken, reads⟩ := Reading.reads run
  exact ⟨taken, reads, .skip _ _⟩

theorem enumConstantsWithin_lays {bound : Nat}
    (run : (enumConstantsWithin bound).on src c = .ok (members, c')) : Lays c members c' := by
  induction bound generalizing c members with
  | zero => cases run
  | succ bound ih =>
    rw [enumConstantsWithin] at run
    obtain ⟨ended, mid, first, run⟩ := on_bind_eq_ok.mp run
    split at run
    · cases run
      exact Lays.nothing first
    rw [on_bind_of_ok (on_sees _)] at run
    split at run
    · cases run
      exact Lays.nothing first
    obtain ⟨constant, behind, one, run⟩ := on_bind_eq_ok.mp run
    have here : Lays mid [constant] behind := by
      obtain ⟨taken, reads⟩ := Reading.reads one
      have some := Cursor.Moves.ne_nil reads.moves (Eats.eats one)
      exact ⟨taken, reads, .one some ((enumConstant_leaves one).declared reads.moves some _)⟩
    obtain ⟨further, next, separated, run⟩ := on_bind_eq_ok.mp run
    have before := ((Lays.nothing first).append here).append (Lays.nothing separated)
    split at run
    · obtain ⟨others, last, rest, run⟩ := on_bind_eq_ok.mp run
      cases run
      exact before.append (ih rest)
    · obtain ⟨_, last, end', run⟩ := on_bind_eq_ok.mp run
      cases run
      exact before.append (Lays.nothing end')

theorem leadingConstants_lays {kind : ClassKind}
    (run : (leadingConstants kind).on src c = .ok (members, c')) : Lays c members c' := by
  unfold leadingConstants at run
  split at run
  · rw [enumConstants, on_bind_of_ok on_get] at run
    obtain ⟨found, mid, first, run⟩ := on_bind_eq_ok.mp run
    obtain ⟨_, last, closed, run⟩ := on_bind_eq_ok.mp run
    cases run
    have lays := (enumConstantsWithin_lays first).append (Lays.nothing closed)
    rwa [List.append_nil] at lays
  · cases run
    exact ⟨[], .refl _, .nil⟩

/-- One declaration of a class is read. -/
def Declares (c : Cursor) (members : List Member) (c' : Cursor) : Prop :=
  ∃ taken, c.Reads taken c' ∧ taken ≠ [] ∧ Declared c'.classes taken members

variable {kind : ClassKind} {member : Parser (List Member)}

theorem classStep_none (run : (classStep member).on src c = .ok (none, c')) : c' = c := by
  rw [classStep, on_bind_of_ok (on_sees _)] at run
  split at run
  · cases run
    rfl
  · obtain ⟨_, _, _, run⟩ := on_bind_eq_ok.mp run
    obtain ⟨_, _, _, run⟩ := on_bind_eq_ok.mp run
    cases run

theorem classStep_some (run : (classStep member).on src c = .ok (some members, c')) :
    ∃ mid, expectMore.on src c = .ok (⟨⟩, mid) ∧ member.on src mid = .ok (members, c') := by
  rw [classStep, on_bind_of_ok (on_sees _)] at run
  split at run
  · cases run
  · obtain ⟨_, mid, more, run⟩ := on_bind_eq_ok.mp run
    obtain ⟨_, _, one, run⟩ := on_bind_eq_ok.mp run
    cases run
    exact ⟨mid, more, one⟩

theorem classBody_lays
    (each : ∀ {c ms c'}, member.on src c = .ok (ms, c') → Declares c ms c')
    (run : (classBody kind member).on src c = .ok (members, c')) : Lays c members c' := by
  obtain ⟨constants, mid, first, run⟩ := on_bind_eq_ok.mp run
  obtain ⟨others, last, rest, run⟩ := on_bind_eq_ok.mp run
  cases run
  refine (leadingConstants_lays first).append ?_
  refine many_induction (motive := fun c found c' => Lays c found.flatten c') ?_ ?_ rest
  · intro c c' ended
    rw [classStep_none ended]
    exact ⟨[], .refl _, .nil⟩
  · intro c mid c' found others stepped lays
    obtain ⟨_, more, one⟩ := classStep_some stepped
    obtain ⟨taken, reads, some, declared⟩ := each one
    exact ((Lays.nothing more).append ⟨taken, reads, .one some declared⟩).append lays

theorem bracedBody_reads {span : Span}
    (each : ∀ {c ms c'}, member.on src c = .ok (ms, c') → Declares c ms c')
    (run : (bracedBody kind member).on src c = .ok ((members, span), c')) :
    ∃ opening inner closing, c.Reads (opening :: inner ++ [closing]) c' ∧
      opening.token = .symbol .lbrace ∧ closing.token = .symbol .rbrace ∧
      span = Span.over (opening :: inner ++ [closing]) ∧ Laid c'.classes inner members ∧
      (Nested (opening :: inner ++ [closing]) → Nested inner) := by
  rw [bracedBody, on_bind_of_ok on_nextStart] at run
  obtain ⟨_, opened, first, run⟩ := on_bind_eq_ok.mp run
  obtain ⟨begins, rfl⟩ := on_expect_eq_ok first
  rw [on_bind_of_ok (on_raiseDocFloor _)] at run
  obtain ⟨found, mid, body, run⟩ := on_bind_eq_ok.mp run
  obtain ⟨_, _, last, run⟩ := on_bind_eq_ok.mp run
  obtain ⟨ends, rfl⟩ := on_expect_eq_ok last
  cases run
  obtain ⟨opening, opens, before⟩ := Cursor.Moves.next_of_head begins
  obtain ⟨closing, closes, behind⟩ := Cursor.Moves.next_of_head ends
  obtain ⟨inner, reads, laid⟩ := classBody_lays each body
  have inside : c.next.Moves inner mid := ⟨reads.moves.rest, reads.moves.lastStop,
    reads.moves.classes⟩
  have moves := (before.trans inside).trans behind
  obtain ⟨braced, nested⟩ := reads.braced.enclosed opens closes
  refine ⟨opening, inner, closing, ⟨moves, braced, fun d member => ?_⟩, opens, closes, ?_, ?_,
    nested⟩
  · rw [Cursor.classes_next] at member ⊢
    rcases reads.classes d member with old | stands
    · exact .inl (by rwa [Cursor.classes_next] at old)
    · exact .inr (@ClassDecl.Stands.within _ _ [opening] [closing] _ stands nested)
  · exact (moves.over (List.cons_ne_nil _ _) src.stop).symm
  · rwa [Cursor.classes_next]

end Bodies

section Classes

variable {src : Source} {c c' : Cursor} {id : ClassId}

/-- A class is read behind its modifiers, which begin at an offset. -/
def ReadsClass (start : Nat) (c : Cursor) (id : ClassId) (c' : Cursor) : Prop :=
  ∃ d head opening inner closing, c.Moves (head ++ (opening :: inner ++ [closing])) c' ∧
    Braced (head ++ (opening :: inner ++ [closing])) ∧
    c'.classes[id]? = some d ∧ d.span = ⟨start, max c'.lastStop start⟩ ∧
    opening.token = .symbol .lbrace ∧ closing.token = .symbol .rbrace ∧
    d.bodySpan = Span.over (opening :: inner ++ [closing]) ∧ Laid c'.classes inner d.members ∧
    (Nested (head ++ (opening :: inner ++ [closing])) → Nested inner) ∧
    ∀ d' ∈ c'.classes, d' = d ∨ d' ∈ c.classes ∨
      d'.Stands c'.classes (head ++ (opening :: inner ++ [closing]))

/-- A class is made of its head and its body and put behind the classes of its body. -/
theorem exists_of_classOver {member : String → Parser (List Member)} {modifiers : Modifiers}
    {start : Nat} {doc : Option String}
    (run : (classOver member modifiers start doc).on src c = .ok (id, c')) :
    ∃ (head : ClassHead) (behind : Cursor) (last : Cursor) (d : ClassDecl),
      classHead.on src c = .ok (head, behind) ∧
      (bracedBody head.kind (member head.name)).on src behind =
        .ok ((d.members, d.bodySpan), last) ∧
      d.span = ⟨start, max c'.lastStop start⟩ ∧ id = last.classes.length ∧
      c'.rest = last.rest ∧ c'.lastStop = last.lastStop ∧ c'.classes = last.classes ++ [d] := by
  obtain ⟨head, behind, first, run⟩ := on_bind_eq_ok.mp run
  obtain ⟨body, last, braced, run⟩ := on_bind_eq_ok.mp run
  obtain ⟨_, closed, docs, run⟩ := on_bind_eq_ok.mp run
  cases docs
  cases run
  exact ⟨head, behind, last, _, first, braced, rfl, rfl, rfl, rfl, rfl⟩

theorem classOver_reads {member : String → Parser (List Member)} {modifiers : Modifiers}
    {start : Nat} {doc : Option String}
    (each : ∀ {name c ms c'}, (member name).on src c = .ok (ms, c') → Declares c ms c')
    (run : (classOver member modifiers start doc).on src c = .ok (id, c')) :
    ReadsClass start c id c' := by
  obtain ⟨head, behind, last, d, first, body, span, rfl, rest, lastStop, classes⟩ :=
    exists_of_classOver run
  obtain ⟨front, before⟩ := Reading.reads first
  obtain ⟨opening, inner, closing, reads, opens, closes, extent, laid, nested⟩ :=
    bracedBody_reads each body
  have whole := before.trans reads
  have longer : last.classes <+: c'.classes := ⟨[d], classes.symm⟩
  refine ⟨d, front, opening, inner, closing, ⟨?_, ?_, whole.moves.classes.trans longer⟩,
    whole.braced, ?_, span, opens, closes, extent, laid.mono longer,
    fun all => nested (before.braced.nested_left all).2, fun d' member => ?_⟩
  · rw [rest]
    exact whole.moves.rest
  · rw [lastStop]
    exact whole.moves.lastStop
  · rw [classes]
    exact List.getElem?_concat_length
  · rw [classes] at member
    rcases List.mem_append.mp member with old | new
    · rcases whole.classes d' old with older | stands
      · exact .inr (.inl older)
      · exact .inr (.inr (stands.mono longer))
    · exact .inl (List.mem_singleton.mp new)

theorem ReadsClass.reads {c₀ : Cursor} {front : List Located} {otherwise : Nat}
    (before : c₀.Reads front c)
    (read : ReadsClass ((c₀.rest.head?.map (·.start)).getD otherwise) c id c') :
    ∃ tail, c₀.Reads (front ++ tail) c' ∧ 2 ≤ tail.length ∧
      ∃ d, c'.classes[id]? = some d ∧ d.span = Span.over (front ++ tail) := by
  obtain ⟨d, head, opening, inner, closing, moves, braced, found, span, opens, closes, body, laid,
    nested, others⟩ := read
  have whole := before.moves.trans moves
  have extent := whole.over (by simp) otherwise
  refine ⟨_, ⟨whole, before.braced.append braced, fun d' member => ?_⟩, by simp; omega, d, found,
    span.trans extent.symm⟩
  have behind (all : Nested (front ++ (head ++ (opening :: inner ++ [closing])))) :=
    (before.braced.nested_left all).2
  rcases others d' member with rfl | old | stands
  · right
    refine ⟨[], front ++ head, opening, inner, closing, [], ?_, opens, closes, ?_, body, laid,
      nested ∘ behind⟩
    · simp only [List.nil_append, List.append_nil, List.append_assoc]
    · rw [span, List.append_assoc, extent]
  · rcases before.classes d' old with older | stands
    · exact .inl older
    · right
      exact @ClassDecl.Stands.within _ _ [] _ _ (stands.mono moves.classes) fun all =>
        (before.braced.nested_left all).1
  · right
    have within := @ClassDecl.Stands.within _ _ front [] _ stands fun all =>
      behind (by rwa [List.append_nil] at all)
    rwa [List.append_nil] at within

theorem initializerBlock?_none {start : Nat}
    (run : (initializerBlock? start).on src c = .ok (none, c')) : c' = c := by
  obtain ⟨isStatic, mid, first, run⟩ := on_bind_eq_ok.mp run
  rw [on_bind_of_ok (on_sees _)] at run
  split at run
  · obtain ⟨_, _, _, run⟩ := on_bind_eq_ok.mp run
    obtain ⟨_, _, _, run⟩ := on_bind_eq_ok.mp run
    cases run
  · rename_i brace
    cases run
    rw [staticWord, on_bind_of_ok (on_upcoming 2)] at first
    split at first
    · rename_i next
      rw [on_bind_of_ok on_advance] at first
      cases first
      obtain ⟨_, more⟩ := head_of_upcoming next
      obtain ⟨inside, _⟩ := head_of_upcoming more
      rw [inside] at brace
      exact absurd (beq_self_eq_true _) brace
    · cases first
      rfl

theorem initializerBlock?_leaves {start : Nat} {block : Member}
    (run : (initializerBlock? start).on src c = .ok (some block, c')) :
    Leaves start c' [block] := by
  obtain ⟨isStatic, mid, first, run⟩ := on_bind_eq_ok.mp run
  rw [on_bind_of_ok (on_sees _)] at run
  split at run
  · obtain ⟨_, _, _, run⟩ := on_bind_eq_ok.mp run
    obtain ⟨_, _, _, run⟩ := on_bind_eq_ok.mp run
    cases run
    exact .one rfl rfl
  · cases run

theorem memberOver_declares {nested : Modifiers → Nat → Option String → Parser ClassId}
    {className : String} {members : List Member}
    (inner : ∀ {modifiers start doc c id c'},
      (nested modifiers start doc).on src c = .ok (id, c') → ReadsClass start c id c')
    (run : (memberOver nested className).on src c = .ok (members, c')) : Declares c members c' := by
  rw [memberOver, on_bind_of_ok on_nextStart] at run
  obtain ⟨ended, mid, first, run⟩ := on_bind_eq_ok.mp run
  rw [on_accept] at first
  split at first
  · rename_i head
    cases first
    cases run
    obtain ⟨taken, reads⟩ := Cursor.Reads.of_past fun n =>
      @Cursor.Past.next (List.replicate n .rbrace) _ _ _ head
    exact ⟨taken, reads, Cursor.Moves.ne_nil reads.moves (next_length_of_head head), .nil _ _⟩
  cases first
  rw [if_neg Bool.false_ne_true] at run
  obtain ⟨found, mid, block, run⟩ := on_bind_eq_ok.mp run
  cases found with
  | some block' =>
    cases run
    obtain ⟨taken, reads⟩ := Reading.reads block
    have two := initializerBlock?_taken _ block
    have some := Cursor.Moves.ne_nil reads.moves (by omega)
    exact ⟨taken, reads, some, (initializerBlock?_leaves block).declared reads.moves some _⟩
  | none =>
    obtain rfl := initializerBlock?_none block
    rw [declaredMember, on_bind_of_ok (on_docBefore _)] at run
    obtain ⟨modifiers, behind, words, run⟩ := on_bind_eq_ok.mp run
    obtain ⟨front, before⟩ := Reading.reads words
    rw [on_bind_of_ok (on_upcoming 2)] at run
    split at run
    · obtain ⟨id, last, one, run⟩ := on_bind_eq_ok.mp run
      cases run
      obtain ⟨tail, reads, two, d, known, span⟩ := (inner one).reads before
      have some : front ++ tail ≠ [] := List.ne_nil_of_length_pos (by simp; omega)
      refine ⟨_, reads, some, fun m member => ?_, fun m member id' span' same => ?_,
        List.pairwise_singleton _ _⟩
      · rw [List.mem_singleton.mp member]
        exact (reads.moves.over some _).symm
      · rw [List.mem_singleton.mp member] at same
        cases same
        exact ⟨d, known, span.trans (reads.moves.over some _)⟩
    · obtain ⟨found, last, typed, run⟩ := on_bind_eq_ok.mp run
      obtain ⟨_, _, closed, run⟩ := on_bind_eq_ok.mp run
      cases closed
      cases run
      obtain ⟨others, typed_reads⟩ := Reading.reads typed
      have reads := before.trans typed_reads
      have shorter := Eats.eats typed
      have before' := before.moves.length_le
      have some := Cursor.Moves.ne_nil reads.moves (by omega)
      have leaves := typedMember_leaves typed
      exact ⟨_, ⟨⟨reads.moves.rest, reads.moves.lastStop, reads.moves.classes⟩, reads.braced,
        reads.classes⟩, some, leaves.declared reads.moves some _⟩

theorem classWithin_reads {depth : Nat} {modifiers : Modifiers} {start : Nat}
    {doc : Option String}
    (run : (classWithin depth modifiers start doc).on src c = .ok (id, c')) :
    ReadsClass start c id c' := by
  induction depth generalizing modifiers start doc c id c' with
  | zero => cases run
  | succ depth ih => exact classOver_reads (memberOver_declares ih) run

theorem classDecl_reads {modifiers : Modifiers} {start : Nat} {doc : Option String}
    (run : (classDecl modifiers start doc).on src c = .ok (id, c')) :
    ReadsClass start c id c' := by
  rw [classDecl, on_bind_of_ok on_get] at run
  exact classWithin_reads run

end Classes

end CreatorSynth.Parser
