import CreatorSynth.Proofs.Parser.Run

/-! A parser only goes on: what it leaves ahead is an end of what was ahead, and the classes read
before stay. Most parsers take a token at least. -/
namespace CreatorSynth

/-- A cursor and a later one, with the tokens taken between them. -/
structure Cursor.Moves (c : Cursor) (taken : List Located) (c' : Cursor) : Prop where
  rest : c.rest = taken ++ c'.rest
  lastStop : c'.lastStop = (taken.getLast?.map (·.stop)).getD c.lastStop
  classes : c.classes <+: c'.classes

namespace Cursor.Moves

variable {c mid c' : Cursor} {taken more : List Located}

theorem stay (rest : c'.rest = c.rest) (lastStop : c'.lastStop = c.lastStop)
    (classes : c.classes <+: c'.classes) : c.Moves [] c' :=
  ⟨rest.symm, lastStop, classes⟩

theorem refl (c : Cursor) : c.Moves [] c :=
  stay rfl rfl List.prefix_rfl

theorem trans (first : c.Moves taken mid) (second : mid.Moves more c') :
    c.Moves (taken ++ more) c' where
  rest := by rw [first.rest, second.rest, List.append_assoc]
  lastStop := by
    rw [second.lastStop, first.lastStop, List.getLast?_append]
    cases more.getLast? <;> rfl
  classes := first.classes.trans second.classes

theorem length_le (moves : c.Moves taken c') : c'.rest.length ≤ c.rest.length := by
  have lengths := congrArg List.length moves.rest
  simp only [List.length_append] at lengths
  omega

theorem next_of_head {t : Token} (head : c.rest.head?.map (·.token) = some t) :
    ∃ u, u.token = t ∧ c.Moves [u] c.next := by
  rcases c with ⟨_ | ⟨u, rest⟩, last, floor, classes⟩
  · cases head
  · exact ⟨u, Option.some.inj head, rfl, rfl, List.prefix_rfl⟩

end Cursor.Moves

namespace Parser

/-- A successful run only goes on from its cursor. -/
class Onward {α : Type} (p : Parser α) : Prop where
  onward : ∀ {src c a c'}, p.on src c = .ok (a, c') → ∃ taken, c.Moves taken c'

/-- A successful run on the source takes a token. -/
class Eats {α : Type} (src : Source) (p : Parser α) : Prop where
  eats : ∀ {c a c'}, p.on src c = .ok (a, c') → c'.rest.length < c.rest.length

/-- A successful run on the source takes two tokens. -/
class EatsTwo {α : Type} (src : Source) (p : Parser α) : Prop where
  eats : ∀ {c a c'}, p.on src c = .ok (a, c') → c'.rest.length + 2 ≤ c.rest.length

section Rules

variable {α β : Type} {src : Source} {p q : Parser α} {f : α → Parser β}

theorem Onward.length_le [Onward p] {c c' : Cursor} {a : α} (run : p.on src c = .ok (a, c')) :
    c'.rest.length ≤ c.rest.length := by
  obtain ⟨taken, moves⟩ := Onward.onward run
  exact moves.length_le

theorem Onward.classes [Onward p] {c c' : Cursor} {a : α} (run : p.on src c = .ok (a, c')) :
    c.classes <+: c'.classes := by
  obtain ⟨taken, moves⟩ := Onward.onward run
  exact moves.classes

instance Onward.bind [Onward p] [more : ∀ a, Onward (f a)] : Onward (p >>= f) where
  onward run := by
    obtain ⟨a, mid, first, second⟩ := on_bind_eq_ok.mp run
    obtain ⟨taken, before⟩ := Onward.onward first
    obtain ⟨others, behind⟩ := (more a).onward second
    exact ⟨_, before.trans behind⟩

instance Onward.ite {condition : Prop} [Decidable condition] [Onward p] [Onward q] :
    Onward (if condition then p else q) := by
  split <;> assumption

instance Onward.pure (a : α) : Onward (Pure.pure a : Parser α) where
  onward run := by
    cases run
    exact ⟨_, .refl _⟩

instance Onward.throw (e : ParseError) : Onward (MonadExcept.throw e : Parser α) where
  onward run := by cases run

theorem Onward.of_same (same : ∀ {src c a c'}, p.on src c = .ok (a, c') →
    c'.rest = c.rest ∧ c'.lastStop = c.lastStop ∧ c'.classes = c.classes) : Onward p where
  onward run := by
    obtain ⟨rest, lastStop, classes⟩ := same run
    exact ⟨[], .stay rest lastStop (classes ▸ List.prefix_rfl)⟩

instance : Onward (get : Parser Cursor) :=
  .of_same fun run => by cases run; exact ⟨rfl, rfl, rfl⟩

instance : Onward (read : Parser Source) :=
  .of_same fun run => by cases run; exact ⟨rfl, rfl, rfl⟩

instance Eats.left [Eats src p] [∀ a, Onward (f a)] : Eats src (p >>= f) where
  eats run := by
    obtain ⟨a, mid, first, second⟩ := on_bind_eq_ok.mp run
    have before := Eats.eats first
    have behind := Onward.length_le second
    omega

instance Eats.right [Onward p] [more : ∀ a, Eats src (f a)] : Eats src (p >>= f) where
  eats run := by
    obtain ⟨a, mid, first, second⟩ := on_bind_eq_ok.mp run
    have before := Onward.length_le first
    have behind := (more a).eats second
    omega

instance Eats.ite {condition : Prop} [Decidable condition] [Eats src p] [Eats src q] :
    Eats src (if condition then p else q) := by
  split <;> assumption

instance Eats.throw (e : ParseError) : Eats src (MonadExcept.throw e : Parser α) where
  eats run := by cases run

theorem EatsTwo.once [EatsTwo src p] : Eats src p where
  eats run := by
    have two := EatsTwo.eats run
    omega

instance EatsTwo.both [Eats src p] [more : ∀ a, Eats src (f a)] : EatsTwo src (p >>= f) where
  eats run := by
    obtain ⟨a, mid, first, second⟩ := on_bind_eq_ok.mp run
    have before := Eats.eats first
    have behind := (more a).eats second
    omega

instance EatsTwo.left [EatsTwo src p] [∀ a, Onward (f a)] : EatsTwo src (p >>= f) where
  eats run := by
    obtain ⟨a, mid, first, second⟩ := on_bind_eq_ok.mp run
    have before := EatsTwo.eats first
    have behind := Onward.length_le second
    omega

instance EatsTwo.right [Onward p] [more : ∀ a, EatsTwo src (f a)] : EatsTwo src (p >>= f) where
  eats run := by
    obtain ⟨a, mid, first, second⟩ := on_bind_eq_ok.mp run
    have before := Onward.length_le first
    have behind := (more a).eats second
    omega

instance EatsTwo.ite {condition : Prop} [Decidable condition] [EatsTwo src p] [EatsTwo src q] :
    EatsTwo src (if condition then p else q) := by
  split <;> assumption

instance EatsTwo.throw (e : ParseError) : EatsTwo src (MonadExcept.throw e : Parser α) where
  eats run := by cases run

end Rules

section Primitives

variable {src : Source}

instance (n : Nat) : Onward (upcoming n) :=
  .of_same fun run => by cases run; exact ⟨rfl, rfl, rfl⟩

instance : Onward peek :=
  .of_same fun run => by cases run; exact ⟨rfl, rfl, rfl⟩

instance : Onward nextStart :=
  .of_same fun run => by rw [on_nextStart] at run; cases run; exact ⟨rfl, rfl, rfl⟩

instance : Onward atEnd :=
  .of_same fun run => by cases run; exact ⟨rfl, rfl, rfl⟩

instance : Onward lastStop :=
  .of_same fun run => by cases run; exact ⟨rfl, rfl, rfl⟩

instance (start : Nat) : Onward (spanFrom start) :=
  .of_same fun run => by cases run; exact ⟨rfl, rfl, rfl⟩

instance (offset : Nat) : Onward (raiseDocFloor offset) :=
  .of_same fun run => by cases run; exact ⟨rfl, rfl, rfl⟩

instance (offset : Nat) : Onward (docBefore offset) :=
  .of_same fun run => by cases run; exact ⟨rfl, rfl, rfl⟩

instance (expected : Expected) : Onward (mismatch expected) :=
  .of_same fun run => by rw [on_mismatch] at run; cases run; exact ⟨rfl, rfl, rfl⟩

instance (s : Symbol) : Onward (sees s) :=
  .of_same fun run => by cases run; exact ⟨rfl, rfl, rfl⟩

instance (start stop : Nat) : Onward (cut start stop) :=
  .of_same fun run => by
    rw [on_cut] at run
    split at run <;> cases run
    exact ⟨rfl, rfl, rfl⟩

instance : Onward expectMore := by
  unfold expectMore
  infer_instance

instance : Onward closeDocs := by
  unfold closeDocs
  infer_instance

instance : Onward advance where
  onward {src c a c'} run := by
    rw [on_advance] at run
    cases run
    cases head : c.rest.head? with
    | none =>
      have empty : c.next = c := by
        rcases c with ⟨_ | ⟨t, rest⟩, last, floor, classes⟩
        · rfl
        · cases head
      rw [empty]
      exact ⟨_, .refl c⟩
    | some t =>
      obtain ⟨u, _, moves⟩ := Cursor.Moves.next_of_head (t := t.token) (by rw [head]; rfl)
      exact ⟨_, moves⟩

instance (c : ClassDecl) : Onward (addClass c) where
  onward run := by
    cases run
    exact ⟨[], .stay rfl rfl (List.prefix_append _ _)⟩

instance (t : Token) : Onward (acceptToken t) := by
  unfold acceptToken
  infer_instance

instance (s : Symbol) : Onward (accept s) :=
  inferInstanceAs (Onward (acceptToken _))

instance (word : Keyword) : Onward (acceptKeyword word) :=
  inferInstanceAs (Onward (acceptToken _))

instance (word : String) : Onward (acceptWord word) :=
  inferInstanceAs (Onward (acceptToken _))

theorem Cursor.length_next (c : Cursor) : c.next.rest.length = c.rest.length - 1 := by
  rcases c with ⟨_ | ⟨t, rest⟩, last, floor, classes⟩ <;> rfl

theorem next_length_of_head {c : Cursor} {t : Token}
    (head : c.rest.head?.map (·.token) = some t) : c.next.rest.length < c.rest.length := by
  obtain ⟨u, _, moves⟩ := Cursor.Moves.next_of_head head
  rw [moves.rest]
  exact Nat.lt_succ_self _

theorem Eats.acceptToken {β : Type} {t : Token} {f : Bool → Parser β} [yes : Onward (f true)]
    [no : Eats src (f false)] : Eats src (acceptToken t >>= f) where
  eats run := by
    obtain ⟨b, mid, first, second⟩ := on_bind_eq_ok.mp run
    rw [on_acceptToken] at first
    split at first
    · rename_i head
      cases first
      have before := next_length_of_head head
      have behind := Onward.length_le second
      omega
    · cases first
      exact no.eats second

instance (s : Symbol) : Onward (expect s) := by
  unfold expect
  infer_instance

instance (s : Symbol) : Eats src (expect s) where
  eats run := by
    rw [on_expect] at run
    split at run
    · rename_i head
      cases run
      exact next_length_of_head head
    · cases run

instance (word : Keyword) : Onward (expectKeyword word) := by
  unfold expectKeyword
  infer_instance

instance (word : Keyword) : Eats src (expectKeyword word) where
  eats run := by
    rw [on_expectKeyword] at run
    split at run
    · rename_i head
      cases run
      exact next_length_of_head head
    · cases run

instance : Onward identifier := by
  unfold identifier
  refine @Onward.bind _ _ _ _ _ fun t => ?_
  split <;> infer_instance

instance : Eats src identifier where
  eats run := by
    rw [on_identifier] at run
    split at run
    · rename_i head
      cases run
      exact next_length_of_head head
    · rename_i head
      cases run
      exact next_length_of_head head
    · cases run

instance : Onward endDeclaration := by
  unfold endDeclaration
  refine @Onward.bind _ _ _ _ _ fun src => ?_
  split <;> infer_instance

theorem eats_endDeclaration (java : src.dialect = .java) : Eats src endDeclaration where
  eats run := by
    rw [on_endDeclaration, java] at run
    exact Eats.eats run

end Primitives

section Loops

variable {α : Type} {src : Source}

instance Onward.repeatWithin (step : Parser (Option α)) [Onward step] (bound : Nat) :
    Onward (repeatWithin step bound) := by
  induction bound with
  | zero => exact Onward.throw _
  | succ bound ih =>
    refine @Onward.bind _ _ _ _ _ fun found => ?_
    split <;> infer_instance

instance Onward.many (step : Parser (Option α)) [Onward step] : Onward (many step) := by
  unfold Parser.many
  infer_instance

instance Onward.separated (s : Symbol) (item : Parser α) [Onward item] :
    Onward (separated s item) := by
  unfold Parser.separated
  infer_instance

end Loops

section Raw

variable {src : Source}

theorem closeGroup_taken {opening closing : Symbol} {inner : Nat} {ts rest : List Located}
    {last : Located} (found : closeGroup opening closing inner ts = some (last, rest)) :
    ∃ taken, ts = taken ++ rest ∧ taken.getLast? = some last ∧ last.token = .symbol closing := by
  induction ts generalizing inner with
  | nil => cases found
  | cons t ts ih =>
    have later : ∀ {inner}, closeGroup opening closing inner ts = some (last, rest) →
        ∃ taken, t :: ts = taken ++ rest ∧ taken.getLast? = some last ∧
          last.token = .symbol closing := by
      intro inner found
      obtain ⟨taken, whole, ends, closes⟩ := ih found
      refine ⟨t :: taken, by rw [whole, List.cons_append], ?_, closes⟩
      rw [List.getLast?_cons, ends, Option.getD_some]
    simp only [closeGroup] at found
    split at found
    · exact later found
    · split at found
      · rename_i closes
        cases inner with
        | zero =>
          cases found
          exact ⟨[last], rfl, rfl, closes⟩
        | succ inner => exact later found
      · exact later found

theorem callArguments_taken {depth start : Nat} {ts rest : List Located}
    {bounds : List (Nat × Nat)} {last : Located}
    (found : callArguments depth start ts = some (bounds, last, rest)) :
    ∃ taken, ts = taken ++ rest ∧ taken.getLast? = some last := by
  induction ts generalizing depth start bounds with
  | nil => cases found
  | cons t ts ih =>
    have later : ∀ {depth start bounds},
        callArguments depth start ts = some (bounds, last, rest) →
        ∃ taken, t :: ts = taken ++ rest ∧ taken.getLast? = some last := by
      intro depth start bounds found
      obtain ⟨taken, whole, ends⟩ := ih found
      refine ⟨t :: taken, by rw [whole, List.cons_append], ?_⟩
      rw [List.getLast?_cons, ends, Option.getD_some]
    simp only [callArguments] at found
    split at found
    · cases found
      exact ⟨[last], rfl, rfl⟩
    · split at found
      · obtain ⟨⟨others, closing, behind⟩, inner, same⟩ := Option.map_eq_some_iff.mp found
        cases same
        exact later inner
      · exact later found

/-- What is left when tokens were passed over, and where the last of them ends. -/
def Passes (ts : List Located) (passed : Option Nat) (found : Source.Passed) : Prop :=
  ∃ taken, ts = taken ++ found.2 ∧ found.1 = (taken.getLast?.map (·.stop)).or passed

theorem Passes.here (ts : List Located) (passed : Option Nat) : Passes ts passed (passed, ts) :=
  ⟨[], rfl, rfl⟩

theorem Passes.cons {t : Located} {ts : List Located} {found : Source.Passed}
    (passes : Passes ts (some t.stop) found) (passed : Option Nat) :
    Passes (t :: ts) passed found := by
  obtain ⟨taken, whole, ends⟩ := passes
  refine ⟨t :: taken, by rw [whole, List.cons_append], ?_⟩
  rw [ends, List.getLast?_cons]
  cases taken.getLast? <;> rfl

theorem passExpression_passes {depth : Nat} {passed : Option Nat} {ts : List Located}
    {found : Source.Passed} (run : src.passExpression depth passed ts = .ok found) :
    Passes ts passed found := by
  induction ts generalizing depth passed with
  | nil => cases run
  | cons t ts ih =>
    simp only [Source.passExpression, bind, Except.bind, pure, Except.pure] at run
    split at run
    · split at run
      · cases run
        exact .here _ _
      · split at run
        · cases run
        · split at run
          · cases run
            exact .here _ _
          · exact (ih run).cons _
    · exact (ih run).cons _

theorem passInitializer_passes {depth angles : Nat} {previous : Option Token}
    {passed : Option Nat} {ts : List Located} {found : Source.Passed}
    (run : src.passInitializer depth angles previous passed ts = .ok found) :
    Passes ts passed found := by
  induction ts generalizing depth angles previous passed with
  | nil => cases run
  | cons t ts ih =>
    simp only [Source.passInitializer, bind, Except.bind, pure, Except.pure] at run
    split at run
    · split at run
      · cases run
        exact .here _ _
      · split at run
        · cases run
        · split at run
          · cases run
            exact .here _ _
          · exact (ih run).cons _
    · exact (ih run).cons _

theorem passStatement_passes {depth : Nat} {passed : Option Nat} {ts : List Located}
    {found : Option Nat × Source.Passed} (run : src.passStatement depth passed ts = .ok found) :
    Passes ts passed found.2 := by
  induction ts generalizing depth passed with
  | nil => cases run
  | cons t ts ih =>
    simp only [Source.passStatement, bind, Except.bind, pure, Except.pure] at run
    have taken : (if t.token.nest depth = 0 ∧ t.token = .symbol .rbrace ∧
        (!Token.continuesBlock (ts.head?.map (·.token))) = true then
        Except.ok (some t.stop, some t.stop, ts)
      else src.passStatement (t.token.nest depth) (some t.stop) ts) = .ok found →
        Passes (t :: ts) passed found.2 := by
      intro run
      split at run
      · cases run
        exact (Passes.here ts (some t.stop)).cons _
      · exact (ih run).cons _
    split at run
    · split at run
      · cases run
        exact (Passes.here ts (some t.stop)).cons _
      · split at run
        · cases run
          exact .here _ _
        · split at run
          · cases run
          · split at run
            · cases run
              exact .here _ _
            · exact taken run
    · exact taken run

theorem Passes.moves {c : Cursor} {found : Source.Passed} (passes : Passes c.rest none found) :
    ∃ taken, c.Moves taken { c with rest := found.2, lastStop := found.1.getD c.lastStop } := by
  obtain ⟨taken, whole, ends⟩ := passes
  exact ⟨taken, whole, by rw [ends, Option.or_none], List.prefix_rfl⟩

/-- What is passed over, and what is done behind it. -/
theorem of_passing {α β : Type} {f : Source → Cursor → Except ParseError α}
    {g : α → Source.Passed} {k : α → Parser β} {src : Source} {c c' : Cursor} {b : β}
    (run : (do
      let src ← read
      let c ← get
      let a ← liftM (f src c)
      resume (g a)
      k a : Parser β).on src c = .ok (b, c')) :
    ∃ a, f src c = .ok a ∧
      (k a).on src { c with rest := (g a).2, lastStop := (g a).1.getD c.lastStop } =
        .ok (b, c') := by
  rw [on_bind_of_ok on_read, on_bind_of_ok on_get] at run
  obtain ⟨a, mid, first, second⟩ := on_bind_eq_ok.mp run
  rw [on_liftExcept] at first
  cases found : f src c with
  | error e =>
    rw [found] at first
    cases first
  | ok _ =>
    rw [found] at first
    cases first
    rw [on_bind_of_ok (on_resume _)] at second
    exact ⟨a, rfl, second⟩

theorem Onward.resume_of {α β : Type} {f : Source → Cursor → Except ParseError α}
    {g : α → Source.Passed} {k : α → Parser β} [∀ a, Onward (k a)]
    (passes : ∀ {src c a}, f src c = .ok a → Passes c.rest none (g a)) :
    Onward (do
      let src ← read
      let c ← get
      let a ← liftM (f src c)
      resume (g a)
      k a) where
  onward run := by
    obtain ⟨a, found, behind⟩ := of_passing run
    obtain ⟨taken, before⟩ := (passes found).moves
    obtain ⟨more, behind⟩ := Onward.onward behind
    exact ⟨_, before.trans behind⟩

instance : Onward expression :=
  @Onward.bind _ _ _ _ _ fun _ => .resume_of (g := id) passExpression_passes

instance : Onward initializer :=
  @Onward.bind _ _ _ _ _ fun _ => .resume_of (g := id) passInitializer_passes

instance : Onward rawStatement :=
  @Onward.bind _ _ _ _ _ fun _ => .resume_of (g := Prod.snd) passStatement_passes

theorem on_group {opening closing : Symbol} {c : Cursor} :
    (group opening closing).on src c =
      if c.rest.head?.map (·.token) = some (.symbol opening) then
        match closeGroup opening closing 0 c.next.rest with
        | none => .error (.unexpectedEnd src.stop)
        | some (last, rest) =>
            let start := (c.rest.head?.map (·.start)).getD src.stop
            .ok (⟨start, max last.stop start⟩, { c.next with rest := rest, lastStop := last.stop })
      else .error (mismatchAt src c (.symbol opening)) := by
  rw [group, on_bind_of_ok on_nextStart, on_bind, on_expect]
  split
  · simp only [Except.bind]
    rw [on_bind_of_ok on_get]
    cases closeGroup opening closing 0 c.next.rest <;> rfl
  · rfl

theorem group_taken {opening closing : Symbol} {c c' : Cursor} {span : Span}
    (run : (group opening closing).on src c = .ok (span, c')) :
    ∃ taken last, c.Moves taken c' ∧ taken.getLast? = some last ∧
      last.token = .symbol closing := by
  rw [on_group] at run
  split at run
  · rename_i head
    obtain ⟨u, _, opened⟩ := Cursor.Moves.next_of_head head
    split at run
    · cases run
    · rename_i last rest found
      cases run
      obtain ⟨taken, whole, ends, closes⟩ := closeGroup_taken found
      have closed : c.next.Moves taken { c.next with rest := rest, lastStop := last.stop } :=
        ⟨whole, by rw [ends]; rfl, List.prefix_rfl⟩
      refine ⟨_, last, opened.trans closed, ?_, closes⟩
      rw [List.getLast?_append, ends, Option.some_or]
  · cases run

instance (opening closing : Symbol) : Onward (group opening closing) where
  onward run := by
    obtain ⟨taken, _, moves, _⟩ := group_taken run
    exact ⟨taken, moves⟩

theorem Cursor.Moves.shorter {c c' : Cursor} {taken : List Located} {last : Located}
    (moves : c.Moves taken c') (some : taken.getLast? = some last) :
    c'.rest.length < c.rest.length := by
  rw [moves.rest, List.length_append]
  cases taken with
  | nil => cases some
  | cons t ts => simp only [List.length_cons]; omega

instance (opening closing : Symbol) : Eats src (group opening closing) where
  eats run := by
    obtain ⟨taken, last, moves, ends, _⟩ := group_taken run
    exact Cursor.Moves.shorter moves ends

instance (opening closing : Symbol) : EatsTwo src (group opening closing) where
  eats {c c' span} run := by
    rw [on_group] at run
    split at run
    · rename_i head
      have first := next_length_of_head head
      split at run
      · cases run
      · rename_i last rest found
        cases run
        obtain ⟨taken, whole, ends, _⟩ := closeGroup_taken found
        have lengths := congrArg List.length whole
        rw [List.length_append] at lengths
        cases taken with
        | nil => cases ends
        | cons t ts =>
          simp only [List.length_cons] at lengths ⊢
          omega
    · cases run

instance (opening closing : Symbol) : Onward (groupText opening closing) := by
  unfold groupText
  infer_instance

instance (opening closing : Symbol) : Eats src (groupText opening closing) := by
  unfold groupText
  infer_instance

instance : Onward argumentText? := by
  unfold argumentText?
  infer_instance

theorem on_callArgs {c : Cursor} :
    callArgs.on src c =
      if c.rest.head?.map (·.token) = some (.symbol .lparen) then
        match callArguments 0 ((c.rest.head?.map (·.start)).getD src.stop + 1) c.next.rest with
        | none => .error (.unexpectedEnd src.stop)
        | some (bounds, last, rest) =>
            ((bounds.mapM fun bound => cut bound.1 bound.2).on src c.next).bind fun found =>
              .ok (if found.1 = [""] then [] else found.1,
                { found.2 with rest := rest, lastStop := last.stop })
      else .error (mismatchAt src c (.symbol .lparen)) := by
  rw [callArgs, on_bind_of_ok on_nextStart, on_bind, on_expect]
  split
  · simp only [Except.bind]
    rw [on_bind_of_ok on_get]
    cases callArguments 0 ((c.rest.head?.map (·.start)).getD src.stop + 1) c.next.rest with
    | none => rfl
    | some found =>
      simp only [on_bind]
      rfl
  · rfl

theorem on_mapM_cut {bounds : List (Nat × Nat)} {c c' : Cursor} {texts : List String}
    (run : (bounds.mapM fun bound => cut bound.1 bound.2).on src c = .ok (texts, c')) : c' = c := by
  induction bounds generalizing c texts with
  | nil =>
    cases run
    rfl
  | cons bound bounds ih =>
    rw [List.mapM_cons] at run
    obtain ⟨text, mid, first, second⟩ := on_bind_eq_ok.mp run
    obtain ⟨others, last, found, same⟩ := on_bind_eq_ok.mp second
    rw [on_cut] at first
    split at first
    · cases first
      cases same
      exact ih found
    · cases first

theorem callArgs_taken {c c' : Cursor} {args : List String}
    (run : callArgs.on src c = .ok (args, c')) :
    ∃ taken last, c.Moves taken c' ∧ taken.getLast? = some last := by
  rw [on_callArgs] at run
  split at run
  · rename_i head
    obtain ⟨u, _, opened⟩ := Cursor.Moves.next_of_head head
    split at run
    · cases run
    · rename_i bounds last rest found
      cases cuts : (bounds.mapM fun bound => cut bound.1 bound.2).on src c.next with
      | error e =>
        rw [cuts] at run
        cases run
      | ok r =>
        rw [cuts] at run
        cases run
        rw [on_mapM_cut cuts]
        obtain ⟨taken, whole, ends⟩ := callArguments_taken found
        have closed : c.next.Moves taken { c.next with rest := rest, lastStop := last.stop } :=
          ⟨whole, by rw [ends]; rfl, List.prefix_rfl⟩
        refine ⟨_, last, opened.trans closed, ?_⟩
        rw [List.getLast?_append, ends, Option.some_or]
  · cases run

instance : Onward callArgs where
  onward run := by
    obtain ⟨taken, _, moves, _⟩ := callArgs_taken run
    exact ⟨taken, moves⟩

instance : Eats src callArgs where
  eats run := by
    obtain ⟨taken, last, moves, ends⟩ := callArgs_taken run
    exact Cursor.Moves.shorter moves ends

end Raw

section Types

variable {src : Source}

instance : Onward dotName := by
  refine @Onward.bind _ _ _ _ _ fun next => ?_
  split <;> infer_instance

instance : Onward qualifiedName := by
  unfold qualifiedName
  infer_instance

instance : Eats src qualifiedName := by
  unfold qualifiedName
  infer_instance

instance : Onward annotation := by
  unfold annotation
  infer_instance

instance : Eats src annotation := by
  unfold annotation
  infer_instance

instance (next : List Token) : Onward (modifierFrom next) := by
  unfold modifierFrom
  split <;> infer_instance

instance : Onward modifier := by
  unfold modifier
  infer_instance

instance : Onward modifiers := by
  unfold modifiers
  infer_instance

instance : Onward dimension := by
  unfold dimension
  infer_instance

instance : Onward dimensions := by
  unfold dimensions
  infer_instance

variable (type : Parser TypeRef) [Onward type]

instance : Onward (typeArg type) := by
  unfold typeArg
  infer_instance

instance [Eats src type] : Eats src (typeArg type) := by
  refine @Eats.acceptToken _ _ _ _ inferInstance ?_
  simp only [Bool.false_eq_true, ↓reduceIte]
  infer_instance

instance : Onward (typeArgs? type) := by
  unfold typeArgs?
  infer_instance

instance : Onward (typeSegment type) := by
  refine @Onward.bind _ _ _ _ _ fun next => ?_
  split <;> infer_instance

instance : Onward (typeRefOver type) := by
  unfold typeRefOver
  infer_instance

instance : Eats src (typeRefOver type) := by
  unfold typeRefOver
  infer_instance

instance (depth : Nat) : Onward (typeRefWithin depth) := by
  induction depth with
  | zero => exact Onward.throw _
  | succ depth ih => exact inferInstanceAs (Onward (typeRefOver (typeRefWithin depth)))

instance (depth : Nat) : Eats src (typeRefWithin depth) := by
  cases depth with
  | zero => exact Eats.throw _
  | succ depth => exact inferInstanceAs (Eats src (typeRefOver (typeRefWithin depth)))

instance : Onward typeRef := by
  unfold typeRef
  infer_instance

instance : Eats src typeRef := by
  unfold typeRef
  infer_instance

instance : Onward bounds := by
  unfold bounds
  infer_instance

instance : Onward typeParam := by
  unfold typeParam
  infer_instance

instance : Eats src typeParam := by
  unfold typeParam
  infer_instance

instance : Onward typeParams := by
  unfold typeParams
  infer_instance

end Types


section Methods

variable {src : Source}

instance : Onward param? := by
  unfold param?
  infer_instance

instance : Eats src param? := by
  unfold param?
  infer_instance

instance : Onward params := by
  unfold params
  infer_instance

instance : Eats src params := by
  unfold params
  infer_instance

instance : Onward throwsClause := by
  unfold throwsClause
  infer_instance

instance : Onward callStatement := by
  unfold callStatement
  infer_instance

instance : Eats src callStatement := by
  unfold callStatement
  infer_instance

variable (modifiers : Modifiers) (typeParams : List TypeParam) (returnType : Option TypeRef)
  (type : TypeRef) (name : String) (start : Nat) (doc : Option String)

instance (qualified : Bool) : Onward (assignment qualified start) := by
  unfold assignment
  infer_instance

instance (qualified : Bool) : Eats src (assignment qualified start) := by
  unfold assignment
  infer_instance

instance (qualified : Bool) : EatsTwo src (assignment qualified start) := by
  unfold assignment
  infer_instance

instance (head : StatementHead) : Onward (statementFrom start head) := by
  unfold statementFrom
  split <;> infer_instance

theorem passStatement_taken {t : Located} {ts : List Located}
    {found : Option Nat × Source.Passed} (open' : t.token ≠ .symbol .semicolon)
    (inner : t.token ≠ .symbol .rbrace) (run : src.passStatement 0 none (t :: ts) = .ok found) :
    found.2.2.length ≤ ts.length := by
  simp only [Source.passStatement, if_neg open', if_neg inner, Source.breaksAfter, bind,
    Except.bind, pure, Except.pure, ↓reduceIte, Bool.false_eq_true] at run
  split at run
  · cases run
    exact Nat.le_refl _
  · obtain ⟨taken, whole, _⟩ := passStatement_passes run
    rw [whole, List.length_append]
    omega

theorem eats_statementFrom {head : StatementHead} (known : head ≠ .other) :
    Eats src (statementFrom start head) := by
  match head with
  | .superCall | .thisCall | .assignment false | .assignment true =>
    unfold statementFrom
    infer_instance
  | .other => exact absurd rfl known

theorem assignment_taken {c c' : Cursor} {found : Statement}
    (run : (statementFrom start (.assignment true)).on src c = .ok (found, c')) :
    c'.rest.length + 4 ≤ c.rest.length := by
  unfold statementFrom at run
  rw [on_bind_of_ok on_advance, on_bind_of_ok on_advance] at run
  have behind := EatsTwo.eats run
  have first := Cursor.length_next c
  have second := Cursor.length_next c.next
  omega

/-- Any other statement takes a token, unless it begins where the block ends. -/
theorem rawStatement_eats {t : Token} {c c' : Cursor} {text : String}
    (head : c.rest.head?.map (·.token) = some t) (open' : t ≠ .symbol .semicolon)
    (inner : t ≠ .symbol .rbrace) (run : rawStatement.on src c = .ok (text, c')) :
    c'.rest.length < c.rest.length := by
  rcases rest : c.rest with _ | ⟨u, more⟩
  · rw [rest] at head
    cases head
  · rw [rest] at head
    cases head
    rw [rawStatement, on_bind_of_ok on_nextStart] at run
    obtain ⟨found, passes, cuts⟩ := of_passing (g := Prod.snd) run
    rw [rest] at passes
    have shorter := passStatement_taken open' inner passes
    have same := Onward.length_le cuts
    exact Nat.lt_succ_of_le (Nat.le_trans same shorter)

/-- A statement takes a token, unless the block ends there. -/
theorem statementFrom_eats {t : Token} {head : StatementHead} {c c' : Cursor} {found : Statement}
    (first : c.rest.head?.map (·.token) = some t) (open' : t ≠ .symbol .semicolon)
    (inner : t ≠ .symbol .rbrace) (run : (statementFrom start head).on src c = .ok (found, c')) :
    c'.rest.length < c.rest.length := by
  by_cases known : head = .other
  · subst known
    unfold statementFrom at run
    obtain ⟨text, mid, raw, span⟩ := on_bind_eq_ok.mp run
    have taken := rawStatement_eats first open' inner raw
    have behind := Onward.length_le span
    omega
  · exact (eats_statementFrom start known).eats run

instance : Onward statement := by
  unfold statement
  infer_instance

instance : Onward blockStep := by
  unfold blockStep
  infer_instance

instance : Onward block := by
  unfold block
  infer_instance

instance : Eats src block := by
  unfold block
  infer_instance

instance : Onward skipDefault := by
  unfold skipDefault
  infer_instance

instance : Onward body? := by
  unfold body?
  infer_instance

theorem eats_body? (java : src.dialect = .java) : Eats src body? := by
  have := eats_endDeclaration java
  unfold body?
  infer_instance

theorem body?_eats {c c' : Cursor} {body : Block} (run : body?.on src c = .ok (some body, c')) :
    c'.rest.length < c.rest.length := by
  rw [body?, on_bind_of_ok (on_sees _)] at run
  split at run
  · exact Eats.eats (p := do return some (← block)) run
  · obtain ⟨_, mid, _, ended⟩ := on_bind_eq_ok.mp run
    obtain ⟨_, last, _, none⟩ := on_bind_eq_ok.mp ended
    cases none

instance : Onward (methodRest modifiers typeParams returnType name start doc) := by
  unfold methodRest
  infer_instance

instance : Eats src (methodRest modifiers typeParams returnType name start doc) := by
  unfold methodRest
  infer_instance

instance : Onward initializer? := by
  unfold initializer?
  infer_instance

instance : Onward (declarator name) := by
  unfold declarator
  infer_instance

instance : Onward nextDeclarator := by
  unfold nextDeclarator
  infer_instance

instance : Onward (fieldRest modifiers type name start doc) := by
  unfold fieldRest
  infer_instance

theorem eats_fieldRest (java : src.dialect = .java) :
    Eats src (fieldRest modifiers type name start doc) := by
  have := eats_endDeclaration java
  unfold fieldRest
  infer_instance

theorem exists_field_of_fieldRest {c c' : Cursor} {found : List Member}
    (run : (fieldRest modifiers type name start doc).on src c = .ok (found, c')) :
    ∃ decl, Member.field decl ∈ found := by
  obtain ⟨first, _, _, run⟩ := on_bind_eq_ok.mp run
  obtain ⟨others, _, _, run⟩ := on_bind_eq_ok.mp run
  obtain ⟨_, _, _, run⟩ := on_bind_eq_ok.mp run
  cases run
  exact ⟨_, List.mem_cons_self⟩

end Methods

section Classes

variable {src : Source}

instance : Onward skipConstantBody := by
  unfold skipConstantBody
  infer_instance

instance : Onward enumConstant := by
  unfold enumConstant
  infer_instance

instance : Eats src enumConstant := by
  unfold enumConstant
  infer_instance

instance : Onward endConstants := by
  unfold endConstants
  infer_instance

instance (bound : Nat) : Onward (enumConstantsWithin bound) := by
  induction bound with
  | zero => exact Onward.throw _
  | succ bound ih =>
    unfold enumConstantsWithin
    infer_instance

instance : Onward enumConstants := by
  unfold enumConstants
  infer_instance

instance : Onward classKind := by
  refine @Onward.bind _ _ _ _ _ fun next => ?_
  split <;> infer_instance

variable (kind : ClassKind)

instance : Onward (extendsClause kind) := by
  unfold extendsClause
  infer_instance

instance : Onward implementsClause := by
  unfold implementsClause
  infer_instance

instance : Onward skipPermits := by
  unfold skipPermits
  infer_instance

instance : Onward (supertypes kind) := by
  unfold supertypes
  infer_instance

instance : Onward (recordComponents kind) := by
  unfold recordComponents
  infer_instance

instance : Onward (leadingConstants kind) := by
  unfold leadingConstants
  infer_instance

instance : Onward classHead := by
  unfold classHead
  infer_instance

instance : Eats src classHead := by
  unfold classHead
  infer_instance

section Body

variable (members : Parser (List Member)) [Onward members]

instance : Onward (classStep members) := by
  unfold classStep
  infer_instance

instance : Onward (classBody kind members) := by
  unfold classBody
  infer_instance

instance : Onward (bracedBody kind members) := by
  unfold bracedBody
  infer_instance

instance : Eats src (bracedBody kind members) := by
  unfold bracedBody
  infer_instance

end Body

variable (member : String → Parser (List Member)) [∀ name, Onward (member name)]
  (nested : Modifiers → Nat → Option String → Parser ClassId)
  [∀ modifiers start doc, Onward (nested modifiers start doc)]
  (modifiers : Modifiers) (start : Nat) (doc : Option String) (className : String)

instance : Onward (classOver member modifiers start doc) := by
  unfold classOver
  infer_instance

instance : Eats src (classOver member modifiers start doc) := by
  unfold classOver
  infer_instance

instance : EatsTwo src (classOver member modifiers start doc) := by
  unfold classOver
  infer_instance

section Typed

variable (typeParams : List TypeParam)

instance : Onward (compactConstructor modifiers typeParams start doc) := by
  unfold compactConstructor
  infer_instance

instance : EatsTwo src (compactConstructor modifiers typeParams start doc) := by
  unfold compactConstructor
  infer_instance

instance : Onward (methodOrFields modifiers typeParams start doc) := by
  unfold methodOrFields
  infer_instance

instance : EatsTwo src (methodOrFields modifiers typeParams start doc) := by
  unfold methodOrFields
  infer_instance

end Typed

instance : Onward (typedMember className modifiers start doc) := by
  unfold typedMember
  infer_instance

instance : EatsTwo src (typedMember className modifiers start doc) := by
  unfold typedMember
  infer_instance

instance : Eats src (typedMember className modifiers start doc) :=
  EatsTwo.once

instance : Onward staticWord := by
  unfold staticWord
  infer_instance

instance : Onward (initializerBlock? start) := by
  unfold initializerBlock?
  infer_instance

theorem initializerBlock?_taken {c c' : Cursor} {block : Member}
    (run : (initializerBlock? start).on src c = .ok (some block, c')) :
    c'.rest.length + 2 ≤ c.rest.length := by
  obtain ⟨isStatic, mid, begun, run⟩ := on_bind_eq_ok.mp run
  have first := Onward.length_le begun
  rw [on_bind_of_ok (on_sees _)] at run
  split at run
  · have two := EatsTwo.eats run
    omega
  · cases run

instance : Onward (declaredMember nested className start) := by
  unfold declaredMember
  infer_instance

instance [∀ modifiers start doc, Eats src (nested modifiers start doc)] :
    Eats src (declaredMember nested className start) := by
  unfold declaredMember
  infer_instance

instance [∀ modifiers start doc, EatsTwo src (nested modifiers start doc)] :
    EatsTwo src (declaredMember nested className start) := by
  unfold declaredMember
  infer_instance

instance : Onward (memberOver nested className) := by
  unfold memberOver
  refine @Onward.bind _ _ _ _ _ fun start => @Onward.bind _ _ _ _ _ fun found => ?_
  split
  · infer_instance
  · refine @Onward.bind _ _ _ _ _ fun block => ?_
    split <;> infer_instance

instance [∀ modifiers start doc, Eats src (nested modifiers start doc)] :
    Eats src (memberOver nested className) where
  eats {c c' found} run := by
    rw [memberOver, on_bind_of_ok on_nextStart] at run
    obtain ⟨ended, mid, first, run⟩ := on_bind_eq_ok.mp run
    rw [on_accept] at first
    split at first
    · rename_i head
      cases first
      cases run
      exact next_length_of_head head
    · cases first
      rw [if_neg Bool.false_ne_true] at run
      obtain ⟨block, mid, first, run⟩ := on_bind_eq_ok.mp run
      cases block with
      | some block =>
        cases run
        have two := initializerBlock?_taken _ first
        omega
      | none =>
        have onward := Onward.length_le first
        have one := Eats.eats run
        omega

instance (depth : Nat) : Onward (classWithin depth modifiers start doc) := by
  induction depth generalizing modifiers start doc with
  | zero => exact Onward.throw _
  | succ depth ih =>
    exact inferInstanceAs (Onward (classOver (memberOver (classWithin depth)) modifiers start doc))

instance (depth : Nat) : Eats src (classWithin depth modifiers start doc) := by
  cases depth with
  | zero => exact Eats.throw _
  | succ depth =>
    exact inferInstanceAs
      (Eats src (classOver (memberOver (classWithin depth)) modifiers start doc))

instance (depth : Nat) : EatsTwo src (classWithin depth modifiers start doc) := by
  cases depth with
  | zero => exact EatsTwo.throw _
  | succ depth =>
    exact inferInstanceAs
      (EatsTwo src (classOver (memberOver (classWithin depth)) modifiers start doc))

instance : Onward (classDecl modifiers start doc) := by
  unfold classDecl
  infer_instance

instance : Eats src (classDecl modifiers start doc) := by
  unfold classDecl
  infer_instance

instance : EatsTwo src (classDecl modifiers start doc) := by
  unfold classDecl
  infer_instance

instance : Onward (Parser.member className) :=
  inferInstanceAs (Onward (memberOver classDecl className))

instance : Eats src (Parser.member className) :=
  inferInstanceAs (Eats src (memberOver classDecl className))

instance (bound : Nat) : Onward (importTailWithin bound) := by
  induction bound with
  | zero => exact Onward.throw _
  | succ bound ih =>
    unfold importTailWithin
    infer_instance

instance : Onward importTail := by
  unfold importTail
  infer_instance

instance : Onward (importDecl start) := by
  unfold importDecl
  infer_instance

instance : EatsTwo src (importDecl start) := by
  unfold importDecl
  infer_instance

instance : Eats src (importDecl start) :=
  EatsTwo.once

instance : Onward packageItem := by
  unfold packageItem
  infer_instance

instance : EatsTwo src packageItem := by
  unfold packageItem
  infer_instance

instance : Eats src packageItem :=
  EatsTwo.once

instance : Onward (importItem start) := by
  unfold importItem
  infer_instance

instance : EatsTwo src (importItem start) := by
  unfold importItem
  infer_instance

instance : Eats src (importItem start) :=
  EatsTwo.once

instance (next : List Token) : Onward (itemFrom modifiers start doc next) := by
  unfold itemFrom
  infer_instance

instance (next : List Token) : EatsTwo src (itemFrom modifiers start doc next) := by
  unfold itemFrom
  infer_instance

instance (next : List Token) : Eats src (itemFrom modifiers start doc next) :=
  EatsTwo.once

instance : Onward item := by
  unfold item
  infer_instance

instance {src : Source} : Eats src item := by
  refine @Eats.acceptToken _ _ _ _ inferInstance ?_
  simp only [Bool.false_eq_true, ↓reduceIte]
  infer_instance

theorem unitStep_of_item {src : Source} {c c' : Cursor} {found : Item} (some : c.rest ≠ [])
    (run : item.on src c = .ok (found, c')) : unitStep.on src c = .ok (Option.some found, c') := by
  have more : ¬ c.rest.isEmpty := by simpa using some
  rw [unitStep, on_bind_of_ok on_atEnd, if_neg more, on_bind_of_ok run, on_pure]

instance : Onward unitStep := by
  unfold unitStep
  infer_instance

instance : Onward unit := by
  unfold unit
  infer_instance

end Classes

end Parser

end CreatorSynth
