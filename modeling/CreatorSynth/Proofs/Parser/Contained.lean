import CreatorSynth.Proofs.Parser.Nesting

/-! Most parsers read no class, and where the brackets of a source nest, what they take does so by
itself. -/
namespace CreatorSynth

/-- From a cursor to a later one with the same classes, past a stretch that nests. -/
def Cursor.Past (awaited : List Symbol) (c c' : Cursor) : Prop :=
  c'.classes = c.classes ∧ ∃ taken, c.Moves taken c' ∧ Level awaited taken

/-- A token that is no bracket. -/
class Token.Plain (t : Token) : Prop where
  await : ∀ awaited, t.await awaited = some awaited

/-- A bracket and the one that closes it. -/
class Symbol.Pair (opening closing : Symbol) : Prop where
  pair : opening.closing? = some closing

instance (word : Keyword) : Token.Plain (.keyword word) := ⟨fun _ => rfl⟩
instance (name : String) : Token.Plain (.name name) := ⟨fun _ => rfl⟩
instance (c : Char) : Token.Plain (.operator c) := ⟨fun _ => rfl⟩
instance : Token.Plain (.symbol .langle) := ⟨fun _ => rfl⟩
instance : Token.Plain (.symbol .rangle) := ⟨fun _ => rfl⟩
instance : Token.Plain (.symbol .semicolon) := ⟨fun _ => rfl⟩
instance : Token.Plain (.symbol .comma) := ⟨fun _ => rfl⟩
instance : Token.Plain (.symbol .ellipsis) := ⟨fun _ => rfl⟩
instance : Token.Plain (.symbol .dot) := ⟨fun _ => rfl⟩
instance : Token.Plain (.symbol .equals) := ⟨fun _ => rfl⟩
instance : Token.Plain (.symbol .atSign) := ⟨fun _ => rfl⟩
instance : Token.Plain (.symbol .question) := ⟨fun _ => rfl⟩
instance : Token.Plain (.symbol .ampersand) := ⟨fun _ => rfl⟩

instance : Symbol.Pair .lparen .rparen := ⟨rfl⟩
instance : Symbol.Pair .lbracket .rbracket := ⟨rfl⟩
instance : Symbol.Pair .lbrace .rbrace := ⟨rfl⟩

namespace Cursor.Past

variable {awaited : List Symbol} {c mid c' : Cursor}

theorem refl (awaited : List Symbol) (c : Cursor) : c.Past awaited c :=
  ⟨rfl, _, .refl c, .of_nested .nil⟩

theorem trans (first : c.Past awaited mid) (second : mid.Past awaited c') :
    c.Past awaited c' := by
  obtain ⟨same, taken, moves, level⟩ := first
  obtain ⟨same', more, moves', level'⟩ := second
  exact ⟨same'.trans same, _, moves.trans moves', level.append level'⟩

theorem next {t : Token} [plain : t.Plain] (head : c.rest.head?.map (·.token) = some t) :
    c.Past awaited c.next := by
  obtain ⟨u, rfl, moves⟩ := Cursor.Moves.next_of_head head
  exact ⟨c.classes_next, _, moves, .plain plain.await⟩

theorem enclosed {opening closing : Symbol} [pair : opening.Pair closing]
    (opens : c.rest.head?.map (·.token) = some (.symbol opening))
    (inner : c.next.Past (closing :: awaited) mid)
    (closes : mid.rest.head?.map (·.token) = some (.symbol closing)) :
    c.Past awaited mid.next := by
  obtain ⟨o, opened, moves⟩ := Cursor.Moves.next_of_head opens
  obtain ⟨same, taken, moves', level⟩ := inner
  obtain ⟨e, closed, moves''⟩ := Cursor.Moves.next_of_head closes
  refine ⟨?_, _, (moves.trans moves').trans moves'', level.enclosed opened pair.pair closed⟩
  rw [mid.classes_next, same, c.classes_next]

end Cursor.Past

namespace Parser

/-- A parser that reads no class and takes a stretch that nests, where certain closing brackets are
awaited. -/
class Contained {α : Type} (awaited : List Symbol) (p : Parser α) : Prop where
  past : ∀ {src c a c'}, p.on src c = .ok (a, c') → c.Past awaited c'

section Rules

variable {α β : Type} {awaited : List Symbol} {p q : Parser α} {f : α → Parser β}

theorem classes_of_contained [contained : Contained (List.replicate 0 .rbrace) p] {src : Source}
    {c c' : Cursor} {a : α} (run : p.on src c = .ok (a, c')) : c'.classes = c.classes :=
  (contained.past run).1

instance Contained.bind [Contained awaited p] [more : ∀ a, Contained awaited (f a)] :
    Contained awaited (p >>= f) where
  past run := by
    obtain ⟨a, mid, first, second⟩ := on_bind_eq_ok.mp run
    exact (Contained.past first).trans ((more a).past second)

instance Contained.ite {condition : Prop} [Decidable condition] [Contained awaited p]
    [Contained awaited q] : Contained awaited (if condition then p else q) := by
  split <;> assumption

instance Contained.pure (a : α) : Contained awaited (Pure.pure a : Parser α) where
  past run := by
    cases run
    exact .refl _ _

instance Contained.throw (e : ParseError) :
    Contained awaited (MonadExcept.throw e : Parser α) where
  past run := by cases run

theorem Contained.of_same (same : ∀ {src c a c'}, p.on src c = .ok (a, c') →
    c'.rest = c.rest ∧ c'.lastStop = c.lastStop ∧ c'.classes = c.classes) :
    Contained awaited p where
  past run := by
    obtain ⟨rest, lastStop, classes⟩ := same run
    exact ⟨classes, [], .stay rest lastStop (classes ▸ List.prefix_rfl), .of_nested .nil⟩

instance : Contained awaited (get : Parser Cursor) :=
  .of_same fun run => by cases run; exact ⟨rfl, rfl, rfl⟩

instance : Contained awaited (read : Parser Source) :=
  .of_same fun run => by cases run; exact ⟨rfl, rfl, rfl⟩

end Rules

section Primitives

variable {awaited : List Symbol}

instance (n : Nat) : Contained awaited (upcoming n) :=
  .of_same fun run => by cases run; exact ⟨rfl, rfl, rfl⟩

instance : Contained awaited nextStart :=
  .of_same fun run => by rw [on_nextStart] at run; cases run; exact ⟨rfl, rfl, rfl⟩

instance : Contained awaited atEnd :=
  .of_same fun run => by cases run; exact ⟨rfl, rfl, rfl⟩

instance : Contained awaited lastStop :=
  .of_same fun run => by cases run; exact ⟨rfl, rfl, rfl⟩

instance (start : Nat) : Contained awaited (spanFrom start) :=
  .of_same fun run => by cases run; exact ⟨rfl, rfl, rfl⟩

instance (offset : Nat) : Contained awaited (raiseDocFloor offset) :=
  .of_same fun run => by cases run; exact ⟨rfl, rfl, rfl⟩

instance (offset : Nat) : Contained awaited (docBefore offset) :=
  .of_same fun run => by cases run; exact ⟨rfl, rfl, rfl⟩

instance (expected : Expected) : Contained awaited (mismatch expected) :=
  .of_same fun run => by rw [on_mismatch] at run; cases run; exact ⟨rfl, rfl, rfl⟩

instance (s : Symbol) : Contained awaited (sees s) :=
  .of_same fun run => by cases run; exact ⟨rfl, rfl, rfl⟩

instance (start stop : Nat) : Contained awaited (cut start stop) :=
  .of_same fun run => by
    rw [on_cut] at run
    split at run <;> cases run
    exact ⟨rfl, rfl, rfl⟩

instance : Contained awaited expectMore := by
  unfold expectMore
  infer_instance

instance : Contained awaited closeDocs := by
  unfold closeDocs
  infer_instance

instance (t : Token) [t.Plain] : Contained awaited (acceptToken t) where
  past run := by
    rw [on_acceptToken] at run
    split at run
    · rename_i head
      cases run
      exact .next head
    · cases run
      exact .refl _ _

instance (s : Symbol) [Token.Plain (.symbol s)] : Contained awaited (accept s) :=
  inferInstanceAs (Contained awaited (acceptToken _))

instance (word : Keyword) : Contained awaited (acceptKeyword word) :=
  inferInstanceAs (Contained awaited (acceptToken _))

instance (word : String) : Contained awaited (acceptWord word) :=
  inferInstanceAs (Contained awaited (acceptToken _))

instance (s : Symbol) [Token.Plain (.symbol s)] : Contained awaited (expect s) := by
  unfold expect
  infer_instance

instance (word : Keyword) : Contained awaited (expectKeyword word) := by
  unfold expectKeyword
  infer_instance

instance : Contained awaited identifier where
  past run := by
    rw [on_identifier] at run
    split at run
    · rename_i head
      cases run
      exact .next head
    · rename_i head
      cases run
      exact .next head
    · cases run

instance : Contained awaited endDeclaration := by
  unfold endDeclaration
  refine @Contained.bind _ _ _ _ _ _ fun src => ?_
  split <;> infer_instance

end Primitives

section Loops

variable {α : Type} {awaited : List Symbol}

instance Contained.repeatWithin (step : Parser (Option α)) [Contained awaited step]
    (bound : Nat) : Contained awaited (repeatWithin step bound) := by
  induction bound with
  | zero => exact Contained.throw _
  | succ bound ih =>
    refine @Contained.bind _ _ _ _ _ _ fun found => ?_
    split <;> infer_instance

instance Contained.many (step : Parser (Option α)) [Contained awaited step] :
    Contained awaited (many step) := by
  unfold Parser.many
  infer_instance

instance Contained.separated (s : Symbol) [Token.Plain (.symbol s)] (item : Parser α)
    [Contained awaited item] : Contained awaited (separated s item) := by
  unfold Parser.separated
  infer_instance

end Loops

section Raw

variable {src : Source} {awaited : List Symbol}

theorem on_expect_eq_ok {s : Symbol} {c c' : Cursor} (run : (expect s).on src c = .ok (⟨⟩, c')) :
    c.rest.head?.map (·.token) = some (.symbol s) ∧ c' = c.next := by
  rw [on_expect] at run
  split at run
  · rename_i head
    cases run
    exact ⟨head, rfl⟩
  · cases run

theorem passExpression_passed {depth : Nat} {passed : Option Nat} {ts : List Located}
    {found : Source.Passed} (run : src.passExpression depth passed ts = .ok found) :
    ∃ taken, ts = taken ++ found.2 ∧ Passed .rbrace depth taken := by
  induction ts generalizing depth passed with
  | nil => cases run
  | cons t ts ih =>
    have further (inside : depth = 0 → t.token ≠ .symbol .rbrace)
        (run : src.passExpression (t.token.nest depth) (some t.stop) ts = .ok found) :
        ∃ taken, t :: ts = taken ++ found.2 ∧ Passed .rbrace depth taken := by
      obtain ⟨taken, whole, passed⟩ := ih run
      exact ⟨t :: taken, by rw [whole, List.cons_append], .token inside passed⟩
    simp only [Source.passExpression, bind, Except.bind, pure, Except.pure] at run
    split at run
    · rename_i shallow
      subst shallow
      split at run
      · cases run
        exact ⟨[], rfl, .done⟩
      · rename_i inside
        split at run
        · cases run
        · split at run
          · cases run
            exact ⟨[], rfl, .done⟩
          · exact further (fun _ => (not_or.mp inside).2) run
    · rename_i deep
      exact further (fun shallow => absurd shallow deep) run

theorem passStatement_passed {depth : Nat} {passed : Option Nat} {ts : List Located}
    {found : Option Nat × Source.Passed} (run : src.passStatement depth passed ts = .ok found) :
    ∃ taken, ts = taken ++ found.2.2 ∧ Passed .rbrace depth taken := by
  induction ts generalizing depth passed with
  | nil => cases run
  | cons t ts ih =>
    have further (inside : depth = 0 → t.token ≠ .symbol .rbrace)
        (run : (if t.token.nest depth = 0 ∧ t.token = .symbol .rbrace ∧
            (!Token.continuesBlock (ts.head?.map (·.token))) = true then
          Except.ok (some t.stop, some t.stop, ts)
        else src.passStatement (t.token.nest depth) (some t.stop) ts) = .ok found) :
        ∃ taken, t :: ts = taken ++ found.2.2 ∧ Passed .rbrace depth taken := by
      split at run
      · rename_i ends
        cases run
        exact ⟨[t], rfl, .token inside (by rw [ends.1]; exact .done)⟩
      · obtain ⟨taken, whole, passed⟩ := ih run
        exact ⟨t :: taken, by rw [whole, List.cons_append], .token inside passed⟩
    simp only [Source.passStatement, bind, Except.bind, pure, Except.pure] at run
    split at run
    · rename_i shallow
      subst shallow
      split at run
      · rename_i ends
        cases run
        refine ⟨[t], rfl, .token (fun _ => ?_) ?_⟩
        · rw [ends]
          simp
        · rw [ends]
          exact .done
      · split at run
        · cases run
          exact ⟨[], rfl, .done⟩
        · rename_i inside
          split at run
          · cases run
          · split at run
            · cases run
              exact ⟨[], rfl, .done⟩
            · exact further (fun _ => inside) run
    · rename_i deep
      exact further (fun shallow => absurd shallow deep) run

/-- Past what a scanner of raw text passed over. -/
theorem Cursor.Past.passed {c : Cursor} {found : Source.Passed} [InBraces awaited]
    (passes : Passes c.rest none found)
    (passed : ∃ taken, c.rest = taken ++ found.2 ∧ Passed .rbrace 0 taken) :
    c.Past awaited { c with rest := found.2, lastStop := found.1.getD c.lastStop } := by
  obtain ⟨taken, moves⟩ := passes.moves
  obtain ⟨taken', whole, passed⟩ := passed
  have same : taken = taken' := List.append_cancel_right (moves.rest.symm.trans whole)
  subst same
  exact ⟨rfl, taken, moves, passed.level awaited⟩

theorem Contained.resume_of {α β : Type} {f : Source → Cursor → Except ParseError α}
    {g : α → Source.Passed} {k : α → Parser β} [∀ a, Contained awaited (k a)] [InBraces awaited]
    (passes : ∀ {src c a}, f src c = .ok a → Passes c.rest none (g a))
    (passed : ∀ {src c a}, f src c = .ok a →
      ∃ taken, c.rest = taken ++ (g a).2 ∧ Passed .rbrace 0 taken) :
    Contained awaited (do
      let src ← read
      let c ← get
      let a ← liftM (f src c)
      resume (g a)
      k a) where
  past run := by
    obtain ⟨a, found, behind⟩ := of_passing run
    exact (Cursor.Past.passed (passes found) (passed found)).trans (Contained.past behind)

instance [InBraces awaited] : Contained awaited expression :=
  @Contained.bind _ _ _ _ _ _ fun _ =>
    .resume_of (g := id) passExpression_passes passExpression_passed

instance [InBraces awaited] : Contained awaited rawStatement :=
  @Contained.bind _ _ _ _ _ _ fun _ =>
    .resume_of (g := Prod.snd) passStatement_passes passStatement_passed

instance (opening closing : Symbol) [pair : opening.Pair closing] :
    Contained awaited (group opening closing) where
  past {src c span c'} run := by
    rw [on_group] at run
    split at run
    · rename_i head
      obtain ⟨u, opens, opened⟩ := Cursor.Moves.next_of_head head
      split at run
      · cases run
      · rename_i last rest found
        cases run
        obtain ⟨taken, whole, ends, nests⟩ := closes_of_closeGroup pair.pair found
        have closed : c.next.Moves taken { c.next with rest := rest, lastStop := last.stop } :=
          ⟨whole, by rw [ends]; rfl, List.prefix_rfl⟩
        have pushes : ∀ awaited, awaitBehind awaited (u :: taken) =
            awaitBehind (closing :: awaited) taken := fun awaited => by
          rw [awaitBehind, opens, Token.await, pair.pair]
          rfl
        refine ⟨c.classes_next, _, opened.trans closed, fun read => ?_⟩
        rw [List.singleton_append, pushes] at read
        rw [Nested, List.singleton_append, pushes]
        exact nests [] awaited rfl read
    · cases run

instance (opening closing : Symbol) [opening.Pair closing] :
    Contained awaited (groupText opening closing) := by
  unfold groupText
  infer_instance

instance : Contained awaited argumentText? := by
  unfold argumentText?
  infer_instance

theorem callArguments_passed {depth start : Nat} {ts rest : List Located}
    {bounds : List (Nat × Nat)} {last : Located}
    (found : callArguments depth start ts = some (bounds, last, rest)) :
    ∃ taken, ts = taken ++ last :: rest ∧ last.token = .symbol .rparen ∧
      Passed .rparen depth taken := by
  induction ts generalizing depth start bounds with
  | nil => cases found
  | cons t ts ih =>
    have further {start bounds} (inside : depth = 0 → t.token ≠ .symbol .rparen)
        (found : callArguments (t.token.nest depth) start ts = some (bounds, last, rest)) :
        ∃ taken, t :: ts = taken ++ last :: rest ∧ last.token = .symbol .rparen ∧
          Passed .rparen depth taken := by
      obtain ⟨taken, whole, closes, passed⟩ := ih found
      exact ⟨t :: taken, by rw [whole, List.cons_append], closes, .token inside passed⟩
    simp only [callArguments] at found
    split at found
    · rename_i ends
      cases found
      rw [ends.1]
      exact ⟨[], rfl, ends.2, .done⟩
    · rename_i inside
      have inside : depth = 0 → t.token ≠ .symbol .rparen := fun shallow closes =>
        inside ⟨shallow, closes⟩
      split at found
      · rename_i next
        obtain ⟨⟨others, closing, behind⟩, inner, same⟩ := Option.map_eq_some_iff.mp found
        cases same
        have found : callArguments (t.token.nest depth) t.stop ts = some (others, last, rest) := by
          rw [next.1, next.2]
          exact inner
        exact further inside found
      · exact further inside found

instance : Contained awaited callArgs where
  past {src c args c'} run := by
    rw [on_callArgs] at run
    split at run
    · rename_i head
      split at run
      · cases run
      · rename_i bounds last rest found
        cases cuts : (bounds.mapM fun bound => cut bound.1 bound.2).on src c.next with
        | error e =>
          rw [cuts] at run
          cases run
        | ok r =>
          rw [cuts] at run
          cases run
          rw [on_mapM_cut cuts]
          obtain ⟨taken, whole, closes, passed⟩ := callArguments_passed found
          obtain ⟨u, opens, opened⟩ := Cursor.Moves.next_of_head head
          have closed : c.next.Moves (taken ++ [last])
              { c.next with rest := rest, lastStop := last.stop } :=
            ⟨by rw [whole]; simp, by simp, List.prefix_rfl⟩
          have level : Level (.rparen :: awaited) taken := fun read =>
            @Passed.nests _ _ _ passed [] (.rparen :: awaited) rfl
              (fun _ head => (Option.some.inj head).symm) read
          exact ⟨c.classes_next, _, opened.trans closed, level.enclosed opens rfl closes⟩
    · cases run

end Raw

section Types

variable {awaited : List Symbol}

theorem Contained.past_advance {α : Type} {p : Parser α} [Contained awaited p] {src : Source}
    {c c' : Cursor} {t : Token} [t.Plain] {a : α} (head : c.rest.head?.map (·.token) = some t)
    (run : (do advance; p).on src c = .ok (a, c')) : c.Past awaited c' := by
  rw [on_bind_of_ok on_advance] at run
  exact (Cursor.Past.next head).trans (Contained.past run)

theorem head_of_upcoming {c : Cursor} {n : Nat} {t : Token} {more : List Token}
    (next : (c.rest.take n).map (·.token) = t :: more) :
    c.rest.head?.map (·.token) = some t ∧
      (c.next.rest.take (n - 1)).map (·.token) = more := by
  rcases c with ⟨_ | ⟨u, rest⟩, last, floor, classes⟩
  · rw [List.take_nil] at next
    cases next
  · cases n with
    | zero => cases next
    | succ n =>
      cases next
      exact ⟨rfl, rfl⟩

instance : Contained awaited dotName where
  past {src c a c'} run := by
    rw [dotName, on_bind_of_ok (on_upcoming 2)] at run
    split at run
    · rename_i next
      obtain ⟨dot, more⟩ := head_of_upcoming next
      obtain ⟨name, _⟩ := head_of_upcoming more
      rw [on_bind_of_ok on_advance] at run
      exact (Cursor.Past.next dot).trans (Contained.past_advance name run)
    · cases run
      exact .refl _ _

instance : Contained awaited qualifiedName := by
  unfold qualifiedName
  infer_instance

instance : Contained awaited annotation := by
  unfold annotation
  infer_instance

instance : Contained awaited modifier where
  past {src c a c'} run := by
    rw [modifier, on_bind_of_ok (on_upcoming 2)] at run
    unfold modifierFrom at run
    split at run
    · exact Contained.past run
    · exact Contained.past run
    · rename_i next
      split at run
      · exact Contained.past_advance (head_of_upcoming next).1 run
      · exact Contained.past run
    · exact Contained.past run

instance : Contained awaited modifiers := by
  unfold modifiers
  infer_instance

instance : Contained awaited dimension where
  past {src c a c'} run := by
    rw [dimension, on_bind_of_ok (on_upcoming 2)] at run
    split at run
    · rename_i next
      obtain ⟨opens, more⟩ := head_of_upcoming next
      obtain ⟨closes, _⟩ := head_of_upcoming more
      rw [on_bind_of_ok on_advance, on_bind_of_ok on_advance] at run
      cases run
      exact .enclosed opens (.refl _ _) closes
    · cases run
      exact .refl _ _

instance : Contained awaited dimensions := by
  unfold dimensions
  infer_instance

variable (type : Parser TypeRef) [Contained awaited type]

instance : Contained awaited (typeArg type) := by
  unfold typeArg
  infer_instance

instance : Contained awaited (typeArgs? type) := by
  unfold typeArgs?
  infer_instance

instance : Contained awaited (typeSegment type) := by
  refine @Contained.bind _ _ _ _ _ _ fun next => ?_
  split <;> infer_instance

instance : Contained awaited (typeRefOver type) := by
  unfold typeRefOver
  infer_instance

instance (depth : Nat) : Contained awaited (typeRefWithin depth) := by
  induction depth with
  | zero => exact Contained.throw _
  | succ depth ih => exact inferInstanceAs (Contained awaited (typeRefOver (typeRefWithin depth)))

instance : Contained awaited typeRef := by
  unfold typeRef
  infer_instance

instance : Contained awaited bounds := by
  unfold bounds
  infer_instance

instance : Contained awaited typeParam := by
  unfold typeParam
  infer_instance

instance : Contained awaited typeParams := by
  unfold typeParams
  infer_instance

end Types

section Methods

variable {awaited : List Symbol}

instance : Contained awaited param? := by
  unfold param?
  infer_instance

instance : Contained awaited params where
  past {src c a c'} run := by
    obtain ⟨_, opened, opens, run⟩ := on_bind_eq_ok.mp run
    obtain ⟨head, rfl⟩ := on_expect_eq_ok opens
    obtain ⟨empty, mid, ended, run⟩ := on_bind_eq_ok.mp run
    rw [on_accept] at ended
    split at ended
    · rename_i closes
      cases ended
      cases run
      exact .enclosed head (.refl _ _) closes
    · cases ended
      rw [if_neg Bool.false_ne_true] at run
      obtain ⟨found, last, each, run⟩ := on_bind_eq_ok.mp run
      obtain ⟨_, closed, closes, run⟩ := on_bind_eq_ok.mp run
      obtain ⟨end', rfl⟩ := on_expect_eq_ok closes
      cases run
      exact .enclosed head (Contained.past each) end'

instance : Contained awaited throwsClause := by
  unfold throwsClause
  infer_instance

instance (qualified : Bool) (start : Nat) [InBraces awaited] :
    Contained awaited (assignment qualified start) := by
  unfold assignment
  infer_instance

theorem callStatement_past [InBraces awaited] {src : Source} {c c' : Cursor} {word : Keyword}
    {args : List String} (head : c.rest.head?.map (·.token) = some (.keyword word))
    (run : callStatement.on src c = .ok (args, c')) : c.Past awaited c' :=
  Contained.past_advance head run

theorem statementFrom_past [InBraces awaited] {src : Source} {c c' : Cursor} {start : Nat}
    {found : Statement}
    (run : (statementFrom start (StatementHead.ofTokens ((c.rest.take 5).map (·.token)))).on src c =
      .ok (found, c')) : c.Past awaited c' := by
  generalize seen : (c.rest.take 5).map (·.token) = next at run
  have raw {kind : StatementHead} (same : kind = .other)
      (run : (statementFrom start kind).on src c = .ok (found, c')) : c.Past awaited c' := by
    subst same
    unfold statementFrom at run
    exact Contained.past run
  unfold StatementHead.ofTokens at run
  split at run
  · obtain ⟨args, mid, call, run⟩ := on_bind_eq_ok.mp run
    exact (callStatement_past (head_of_upcoming seen).1 call).trans (Contained.past run)
  · obtain ⟨args, mid, call, run⟩ := on_bind_eq_ok.mp run
    exact (callStatement_past (head_of_upcoming seen).1 call).trans (Contained.past run)
  · split at run
    · exact raw rfl run
    · obtain ⟨word, more⟩ := head_of_upcoming seen
      obtain ⟨dot, _⟩ := head_of_upcoming more
      unfold statementFrom at run
      rw [on_bind_of_ok on_advance] at run
      exact (Cursor.Past.next word).trans (Contained.past_advance dot run)
  · split at run
    · exact raw rfl run
    · unfold statementFrom at run
      exact Contained.past run
  · exact raw rfl run

instance [InBraces awaited] : Contained awaited statement where
  past {src c a c'} run := by
    rw [statement, on_bind_of_ok on_nextStart] at run
    obtain ⟨empty, mid, ended, run⟩ := on_bind_eq_ok.mp run
    refine (Contained.past ended).trans ?_
    split at run
    · exact Contained.past run
    · rw [on_bind_of_ok (on_upcoming 5)] at run
      obtain ⟨found, last, first, run⟩ := on_bind_eq_ok.mp run
      exact (statementFrom_past first).trans (Contained.past run)

instance [InBraces awaited] : Contained awaited blockStep := by
  unfold blockStep
  infer_instance

instance : Contained awaited block where
  past {src c a c'} run := by
    rw [block, on_bind_of_ok on_nextStart] at run
    obtain ⟨_, opened, opens, run⟩ := on_bind_eq_ok.mp run
    obtain ⟨head, rfl⟩ := on_expect_eq_ok opens
    obtain ⟨found, mid, each, run⟩ := on_bind_eq_ok.mp run
    obtain ⟨_, closed, closes, run⟩ := on_bind_eq_ok.mp run
    obtain ⟨end', rfl⟩ := on_expect_eq_ok closes
    cases run
    exact .enclosed head (Contained.past each) end'

instance [InBraces awaited] : Contained awaited skipDefault := by
  unfold skipDefault
  infer_instance

instance [InBraces awaited] : Contained awaited body? := by
  unfold body?
  infer_instance

instance (modifiers : Modifiers) (typeParams : List TypeParam) (returnType : Option TypeRef)
    (name : String) (start : Nat) (doc : Option String) [InBraces awaited] :
    Contained awaited (methodRest modifiers typeParams returnType name start doc) := by
  unfold methodRest
  infer_instance

end Methods

section Classes

variable {awaited : List Symbol} (kind : ClassKind)

instance : Contained awaited skipConstantBody := by
  unfold skipConstantBody
  infer_instance

instance : Contained awaited enumConstant := by
  unfold enumConstant
  infer_instance

instance : Contained awaited endConstants := by
  unfold endConstants
  infer_instance

instance (bound : Nat) : Contained awaited (enumConstantsWithin bound) := by
  induction bound with
  | zero => exact Contained.throw _
  | succ bound ih =>
    unfold enumConstantsWithin
    infer_instance

instance : Contained awaited classKind where
  past {src c a c'} run := by
    rw [classKind, on_bind_of_ok on_peek] at run
    split at run
    · rename_i head
      exact Contained.past_advance head run
    · rename_i head
      exact Contained.past_advance head run
    · rename_i head
      exact Contained.past_advance head run
    · rename_i head
      exact Contained.past_advance head run
    · exact Contained.past run

instance : Contained awaited (extendsClause kind) := by
  unfold extendsClause
  infer_instance

instance : Contained awaited implementsClause := by
  unfold implementsClause
  infer_instance

instance : Contained awaited skipPermits := by
  unfold skipPermits
  infer_instance

instance : Contained awaited (supertypes kind) := by
  unfold supertypes
  infer_instance

instance : Contained awaited (recordComponents kind) := by
  unfold recordComponents
  infer_instance

instance : Contained awaited classHead := by
  unfold classHead
  infer_instance

instance (modifiers : Modifiers) (typeParams : List TypeParam) (start : Nat)
    (doc : Option String) :
    Contained awaited (compactConstructor modifiers typeParams start doc) := by
  unfold compactConstructor
  infer_instance

instance (bound : Nat) : Contained awaited (importTailWithin bound) := by
  induction bound with
  | zero => exact Contained.throw _
  | succ bound ih =>
    unfold importTailWithin
    infer_instance

instance : Contained awaited importTail := by
  unfold importTail
  infer_instance

instance (start : Nat) : Contained awaited (importDecl start) := by
  unfold importDecl
  infer_instance

instance : Contained awaited packageItem := by
  unfold packageItem
  infer_instance

instance (start : Nat) : Contained awaited (importItem start) := by
  unfold importItem
  infer_instance

/-- A static block begins with a word that was looked at. -/
instance (start : Nat) : Contained awaited (initializerBlock? start) where
  past {src c a c'} run := by
    obtain ⟨isStatic, mid, first, run⟩ := on_bind_eq_ok.mp run
    have word : c.Past awaited mid := by
      rw [staticWord, on_bind_of_ok (on_upcoming 2)] at first
      split at first
      · rename_i next
        exact Contained.past_advance (head_of_upcoming next).1 first
      · exact Contained.past first
    exact word.trans (Contained.past run)

end Classes

end Parser

end CreatorSynth
