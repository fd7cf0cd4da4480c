import CreatorSynth.Proofs.Parser.Errors

/-! Where a block ends. Its statements are split by scanners that count brackets without their kind,
each with an end of its own, and none of them leaves a block whose brackets nest. -/
namespace CreatorSynth
open Text Located

/-- In a block: what is ahead nests up to the brace that closes the block. -/
structure Cursor.InBlock (tokens : List Located) (closing : Located) (rest : List Located)
    (c : Cursor) : Prop where
  inside : c.rest <:+ tokens
  brace : closing.token = .symbol .rbrace
  nests : ∃ inner, c.rest = inner ++ closing :: rest ∧ Nested inner

theorem Token.nest_of_await {t : Token} {awaited next : List Symbol}
    (known : t.await awaited = some next) : t.nest awaited.length = next.length := by
  rcases t.await_cases with ⟨_, _, _, _, opens, nest⟩ | ⟨_, _, _, closes, nest⟩ | ⟨plain, nest⟩
  · rw [opens] at known
    cases known
    rw [nest, List.length_cons]
  · rw [closes] at known
    split at known <;> cases known
    rw [nest, List.length_tail]
  · rw [plain] at known
    cases known
    rw [nest]

theorem Nested.head_ne {t : Located} {ts : List Located} (nested : Nested (t :: ts)) {s : Symbol}
    (closes : s.isClose = true) : t.token ≠ .symbol s := by
  intro same
  rw [Nested, CreatorSynth.awaitBehind, same] at nested
  cases s <;> cases closes <;> cases nested

theorem Nested.of_cons {t : Located} {ts : List Located} (nested : Nested (t :: ts))
    (plain : t.token.Plain) : Nested ts := by
  rwa [Nested, CreatorSynth.awaitBehind, plain.await, Option.bind_some] at nested

namespace Cursor.InBlock

variable {tokens rest : List Located} {closing : Located} {c : Cursor}

theorem ne_nil (here : c.InBlock tokens closing rest) : c.rest ≠ [] := by
  obtain ⟨inner, ahead, _⟩ := here.nests
  simp [ahead]

theorem next (here : c.InBlock tokens closing rest) {t : Token} [plain : t.Plain]
    (head : c.rest.head?.map (·.token) = some t) : c.next.InBlock tokens closing rest := by
  obtain ⟨u, rfl, moves⟩ := Cursor.Moves.next_of_head head
  obtain ⟨inner, ahead, nested⟩ := here.nests
  refine ⟨List.IsSuffix.trans ⟨[u], moves.rest.symm⟩ here.inside, here.brace, ?_⟩
  rw [moves.rest] at ahead
  cases inner with
  | nil =>
    obtain ⟨rfl, _⟩ := List.cons.inj ahead
    have unread := plain.await []
    rw [here.brace] at unread
    cases unread
  | cons v inner =>
    obtain ⟨rfl, behind⟩ := List.cons.inj ahead
    exact ⟨inner, behind, nested.of_cons plain⟩

/-- A closing brace that comes next is that of the block. -/
theorem ahead_of_brace (here : c.InBlock tokens closing rest)
    (head : c.rest.head?.map (·.token) = some (.symbol .rbrace)) : c.rest = closing :: rest := by
  obtain ⟨inner, ahead, nested⟩ := here.nests
  cases inner with
  | nil => exact ahead
  | cons t inner =>
    rw [ahead] at head
    exact absurd (Option.some.inj head) (nested.head_ne rfl)

end Cursor.InBlock

namespace Parser

section Scans

variable {src : Source} {closing : Located} {rest ts : List Located} {awaited : List Symbol}
  {passed : Option Nat}

theorem passExpression_inside (brace : closing.token = .symbol .rbrace)
    (stands : ∀ t ∈ ts ++ closing :: rest, t.StandsIn src.text)
    (known : ∀ stop, passed = some stop → Boundary src.text stop)
    (nests : awaitBehind awaited ts = some []) :
    ∃ found, src.passExpression awaited.length passed (ts ++ closing :: rest) = .ok found ∧
      ∃ left, found.2 = left ++ closing :: rest ∧ Nested left := by
  induction ts generalizing awaited passed with
  | nil =>
    cases nests
    exact ⟨(passed, closing :: rest), by simp [Source.passExpression, brace, pure, Except.pure],
      [], rfl, .nil⟩
  | cons t ts ih =>
    obtain ⟨next, first, more⟩ := Option.bind_eq_some_iff.mp nests
    have here := stands t List.mem_cons_self
    obtain ⟨broken, test⟩ := breaksAfter_of_boundary known here.boundary_start
    have further := ih (fun u member => stands u (List.mem_cons_of_mem _ member))
      (known_of_stands here) more
    rw [← Token.nest_of_await first] at further
    cases awaited with
    | nil =>
      have stay : ∃ left, t :: ts ++ closing :: rest = left ++ closing :: rest ∧ Nested left :=
        ⟨_, rfl, nests⟩
      by_cases ended : t.token = .symbol .semicolon ∨ t.token = .symbol .rbrace
      · exact ⟨(passed, t :: ts ++ closing :: rest),
          by simp [Source.passExpression, ended, pure, Except.pure], stay⟩
      cases broken with
      | true => exact ⟨(passed, t :: ts ++ closing :: rest),
          by simp [Source.passExpression, ended, test, bind, Except.bind, pure, Except.pure], stay⟩
      | false =>
        obtain ⟨found, run, inside⟩ := further
        refine ⟨found, ?_, inside⟩
        simpa [Source.passExpression, ended, test, bind, Except.bind] using run
    | cons bracket awaited =>
      obtain ⟨found, run, inside⟩ := further
      refine ⟨found, ?_, inside⟩
      simpa [Source.passExpression] using run

theorem passStatement_inside (brace : closing.token = .symbol .rbrace)
    (stands : ∀ t ∈ ts ++ closing :: rest, t.StandsIn src.text)
    (known : ∀ stop, passed = some stop → Boundary src.text stop)
    (nests : awaitBehind awaited ts = some []) :
    ∃ found, src.passStatement awaited.length passed (ts ++ closing :: rest) = .ok found ∧
      ∃ left, found.2.2 = left ++ closing :: rest ∧ Nested left := by
  induction ts generalizing awaited passed with
  | nil =>
    cases nests
    exact ⟨(passed, passed, closing :: rest),
      by simp [Source.passStatement, brace, pure, Except.pure], [], rfl, .nil⟩
  | cons t ts ih =>
    obtain ⟨next, first, more⟩ := Option.bind_eq_some_iff.mp nests
    have here := stands t List.mem_cons_self
    obtain ⟨broken, test⟩ := breaksAfter_of_boundary known here.boundary_start
    have height := Token.nest_of_await first
    -- Behind the token: the end of a block, or the rest of the statement.
    have further : ∃ found, (if t.token.nest awaited.length = 0 ∧ t.token = .symbol .rbrace ∧
          (!Token.continuesBlock ((ts ++ closing :: rest).head?.map (·.token))) = true then
          Except.ok (some t.stop, some t.stop, ts ++ closing :: rest)
        else src.passStatement (t.token.nest awaited.length) (some t.stop)
          (ts ++ closing :: rest)) = .ok found ∧
        ∃ left, found.2.2 = left ++ closing :: rest ∧ Nested left := by
      split
      · rename_i ends
        obtain rfl : next = [] := List.eq_nil_of_length_eq_zero (height ▸ ends.1)
        exact ⟨_, rfl, ts, rfl, more⟩
      · rw [height]
        exact ih (fun u member => stands u (List.mem_cons_of_mem _ member)) (known_of_stands here)
          more
    cases awaited with
    | nil =>
      have stay : ∃ left, t :: ts ++ closing :: rest = left ++ closing :: rest ∧ Nested left :=
        ⟨_, rfl, nests⟩
      by_cases semicolon : t.token = .symbol .semicolon
      · refine ⟨(passed, some t.stop, ts ++ closing :: rest),
          by simp [Source.passStatement, semicolon, pure, Except.pure], ts, rfl, ?_⟩
        exact Nested.of_cons nests (semicolon ▸ inferInstance)
      by_cases ended : t.token = .symbol .rbrace
      · exact absurd ended (Nested.head_ne nests rfl)
      cases broken with
      | true => exact ⟨(passed, passed, t :: ts ++ closing :: rest), by
          simp [Source.passStatement, semicolon, ended, test, bind, Except.bind, pure, Except.pure],
          stay⟩
      | false =>
        obtain ⟨found, run, inside⟩ := further
        refine ⟨found, ?_, inside⟩
        simpa [Source.passStatement, semicolon, ended, test, bind, Except.bind, pure, Except.pure]
          using run
    | cons bracket awaited =>
      obtain ⟨found, run, inside⟩ := further
      refine ⟨found, ?_, inside⟩
      simpa [Source.passStatement, bind, Except.bind, pure, Except.pure] using run

theorem await_in_parens {t : Token} {next : List Symbol}
    (known : t.await (awaited ++ [.rparen]) = some next)
    (other : awaited = [] → t ≠ .symbol .rparen) :
    ∃ inner, next = inner ++ [.rparen] ∧ t.nest awaited.length = inner.length := by
  rcases t.await_cases with ⟨_, bracket, _, _, opens, nest⟩ | ⟨bracket, rfl, _, closes, nest⟩ |
    ⟨plain, nest⟩
  · rw [opens] at known
    cases known
    exact ⟨bracket :: awaited, rfl, nest _⟩
  · rw [closes] at known
    split at known <;> cases known
    rename_i head
    cases awaited with
    | nil =>
      cases head
      exact absurd rfl (other rfl)
    | cons _ awaited => exact ⟨awaited, rfl, nest _⟩
  · rw [plain] at known
    cases known
    exact ⟨awaited, rfl, nest _⟩

/-- The arguments of a call end where the parenthesis in front of them is closed. -/
theorem callArguments_inside {start : Nat} {ends : List Located}
    (nests : awaitBehind (awaited ++ [.rparen]) ts = some []) :
    ∃ bounds last left, callArguments awaited.length start (ts ++ ends) =
      some (bounds, last, left ++ ends) ∧ Nested left := by
  induction ts generalizing awaited start with
  | nil => cases awaited <;> cases nests
  | cons t ts ih =>
    obtain ⟨next, first, more⟩ := Option.bind_eq_some_iff.mp nests
    rw [List.cons_append, callArguments]
    split
    · rename_i ended
      obtain rfl := List.eq_nil_of_length_eq_zero ended.1
      rw [ended.2] at first
      cases first
      exact ⟨_, t, ts, rfl, more⟩
    · rename_i inside
      obtain ⟨inner, rfl, height⟩ := await_in_parens first fun empty same =>
        inside ⟨empty ▸ rfl, same⟩
      split
      · rename_i comma
        rw [comma.1, comma.2] at height
        obtain rfl := List.eq_nil_of_length_eq_zero height.symm
        obtain ⟨bounds, last, left, found, nested⟩ := @ih [] t.stop more
        rw [List.length_nil] at found
        exact ⟨_, last, left, by rw [found]; rfl, nested⟩
      · rw [height]
        exact ih more

end Scans

/-- At a cursor in a block the parser does not leave the block, and it has an answer in Groovy. -/
structure Stays {α : Type} (src : Source) (tokens : List Located) (closing : Located)
    (rest : List Located) (p : Parser α) (c : Cursor) : Prop where
  within : ∀ {a c'}, p.on src c = .ok (a, c') → c'.InBlock tokens closing rest
  answers : src.dialect = .groovy → ∃ a c', p.on src c = .ok (a, c')

section Stays

variable {α β : Type} {src : Source} {tokens rest : List Located} {closing : Located}
  {p q : Parser α} {f : α → Parser β} {c c' : Cursor}

namespace Stays

theorem of_ok {a : α} (run : p.on src c = .ok (a, c')) (there : c'.InBlock tokens closing rest) :
    Stays src tokens closing rest p c where
  within found := by
    rw [run] at found
    cases found
    exact there
  answers _ := ⟨a, c', run⟩

theorem bind (first : Stays src tokens closing rest p c)
    (second : ∀ {a mid}, p.on src c = .ok (a, mid) → mid.InBlock tokens closing rest →
      Stays src tokens closing rest (f a) mid) : Stays src tokens closing rest (p >>= f) c where
  within found := by
    obtain ⟨a, mid, run, more⟩ := on_bind_eq_ok.mp found
    exact (second run (first.within run)).within more
  answers groovy := by
    obtain ⟨a, mid, run⟩ := first.answers groovy
    obtain ⟨b, c', more⟩ := (second run (first.within run)).answers groovy
    exact ⟨b, c', by rw [on_bind_of_ok run, more]⟩

theorem step {a : α} {mid : Cursor} (run : p.on src c = .ok (a, mid))
    (second : Stays src tokens closing rest (f a) mid) :
    Stays src tokens closing rest (p >>= f) c where
  within found := second.within (by rwa [on_bind_of_ok run] at found)
  answers groovy := by
    rw [on_bind_of_ok run]
    exact second.answers groovy

end Stays

theorem stays_acceptToken (here : c.InBlock tokens closing rest) (t : Token) [t.Plain] :
    Stays src tokens closing rest (acceptToken t) c := by
  have run := @on_acceptToken src c t
  split at run
  · exact .of_ok run (Cursor.InBlock.next here ‹_›)
  · exact .of_ok run here

theorem stays_endDeclaration (here : c.InBlock tokens closing rest) :
    Stays src tokens closing rest endDeclaration c where
  within run := by
    rw [on_endDeclaration] at run
    split at run
    · obtain ⟨head, rfl⟩ := on_expect_eq_ok run
      exact Cursor.InBlock.next here head
    · cases run
      split
      · exact Cursor.InBlock.next here ‹_›
      · exact here
  answers groovy := by
    rw [on_endDeclaration, groovy]
    exact ⟨_, _, rfl⟩

variable [holds : src.Holds tokens]

theorem stays_passing {f : Source → Cursor → Except ParseError α} {g : α → Source.Passed}
    {k : α → Option Nat} (here : c.InBlock tokens closing rest) {a : α} (found : f src c = .ok a)
    (passes : Passes c.rest none (g a))
    (known : ∀ offset, k a = some offset → Boundary src.text offset)
    (nests : ∃ left, (g a).2 = left ++ closing :: rest ∧ Nested left) :
    Stays src tokens closing rest (do
      let start ← nextStart
      let src ← read
      let c ← get
      let a ← liftM (f src c)
      resume (g a)
      cut start ((k a).getD start)) c := by
  have first : Boundary src.text ((c.rest.head?.map (·.start)).getD src.stop) :=
    boundary_nextStart here.inside
  have last : Boundary src.text ((k a).getD ((c.rest.head?.map (·.start)).getD src.stop)) := by
    cases offset : k a with
    | none => exact first
    | some offset' => exact known _ offset
  obtain ⟨taken, split, _⟩ := passes
  let there : Cursor := { c with rest := (g a).2, lastStop := (g a).1.getD c.lastStop }
  obtain ⟨text, done⟩ := on_cut_of_boundary (c := there) first last
  have behind : there.InBlock tokens closing rest :=
    ⟨List.IsSuffix.trans ⟨taken, split.symm⟩ here.inside, here.brace, nests⟩
  refine .of_ok (a := text) ?_ behind
  rw [on_bind_of_ok on_nextStart, on_bind_of_ok on_read, on_bind_of_ok on_get,
    on_bind_of_ok (by rw [on_liftExcept, found]; rfl), on_bind_of_ok (on_resume _), done]

theorem stays_expression (here : c.InBlock tokens closing rest) :
    Stays src tokens closing rest expression c := by
  obtain ⟨inner, ahead, nested⟩ := here.nests
  have stands := holds.ahead here.inside
  obtain ⟨found, run, left⟩ :=
    @passExpression_inside src closing rest inner [] none here.brace (ahead ▸ stands) (by simp)
      nested
  rw [← ahead] at run
  exact stays_passing (f := fun src c => src.passExpression 0 none c.rest) (g := id) here run
    (passExpression_passes run) ((passExpression_passes run).known stands) left

theorem stays_rawStatement (here : c.InBlock tokens closing rest) :
    Stays src tokens closing rest rawStatement c := by
  obtain ⟨inner, ahead, nested⟩ := here.nests
  have stands := holds.ahead here.inside
  obtain ⟨found, run, left⟩ :=
    @passStatement_inside src closing rest inner [] none here.brace (ahead ▸ stands) (by simp)
      nested
  rw [← ahead] at run
  exact stays_passing (f := fun src c => src.passStatement 0 none c.rest) (g := Prod.snd) here run
    (passStatement_passes run) (passStatement_known stands (by simp) run) left

theorem stays_callArgs (here : c.InBlock tokens closing rest)
    (head : c.rest.head?.map (·.token) = some (.symbol .lparen)) :
    Stays src tokens closing rest callArgs c := by
  obtain ⟨first, opens, moves⟩ := Cursor.Moves.next_of_head head
  obtain ⟨inner, ahead, nested⟩ := here.nests
  have stands := holds.ahead here.inside
  rw [moves.rest] at ahead
  cases inner with
  | nil =>
    obtain ⟨rfl, _⟩ := List.cons.inj ahead
    rw [here.brace] at opens
    cases opens
  | cons u inner =>
    obtain ⟨rfl, behind⟩ : first = u ∧ c.next.rest = inner ++ closing :: rest :=
      List.cons.inj ahead
    have awaits : awaitBehind ([] ++ [.rparen]) inner = some [] := by
      rwa [Nested, awaitBehind, opens] at nested
    have begins : c.rest.head? = some first := by rw [moves.rest]; rfl
    obtain ⟨bounds, last, left, found, level⟩ :=
      @callArguments_inside inner [] (first.start + 1) (closing :: rest) awaits
    rw [List.length_nil, ← behind] at found
    have member : ∀ t ∈ c.next.rest, t ∈ c.rest := fun t member => by
      rw [moves.rest]
      exact List.mem_append_right _ member
    have open' := stands first (List.mem_of_head? begins)
    have start : Boundary src.text (first.start + 1) := by
      rw [← open'.stop_of_symbol opens rfl]
      exact open'.boundary_stop
    obtain ⟨texts, cuts⟩ := on_mapM_cut_of_boundary (c := c.next)
      (callArguments_boundary (fun t among => stands t (member t among)) start found)
    obtain ⟨taken, split, _⟩ := callArguments_taken found
    have suffix : left ++ closing :: rest <:+ c.rest :=
      ⟨[first] ++ taken, by rw [List.append_assoc, ← split, moves.rest]⟩
    let there : Cursor := { c.next with rest := left ++ closing :: rest, lastStop := last.stop }
    have past : there.InBlock tokens closing rest :=
      ⟨suffix.trans here.inside, here.brace, left, rfl, level⟩
    refine .of_ok (a := if texts = [""] then [] else texts) ?_ past
    rw [on_callArgs, if_pos head, begins, Option.map_some, Option.getD_some, found]
    simp only [cuts, Except.bind]
    rfl

theorem stays_callStatement (here : c.InBlock tokens closing rest) {n : Nat} {word : Keyword}
    {more : List Token}
    (seen : (c.rest.take n).map (·.token) = .keyword word :: .symbol .lparen :: more) :
    Stays src tokens closing rest callStatement c := by
  obtain ⟨head, more⟩ := head_of_upcoming seen
  have there : c.next.InBlock tokens closing rest := Cursor.InBlock.next here head
  refine .step on_advance ?_
  refine (stays_callArgs there (head_of_upcoming more).1).bind fun _ behind => ?_
  exact (stays_endDeclaration behind).bind fun _ ended => .of_ok (on_pure _) ended

theorem stays_assignment (here : c.InBlock tokens closing rest) {n : Nat} {field : String}
    {more : List Token} {qualified : Bool} {start : Nat}
    (seen : (c.rest.take n).map (·.token) = .name field :: .symbol .equals :: more) :
    Stays src tokens closing rest (assignment qualified start) c := by
  obtain ⟨head, more⟩ := head_of_upcoming seen
  obtain ⟨head', _⟩ := head_of_upcoming more
  have named : identifier.on src c = .ok (field, c.next) := by rw [on_identifier, head]
  have equals : (expect .equals).on src c.next = .ok (⟨⟩, c.next.next) := by
    rw [on_expect, if_pos head']
  refine .step named (.step equals ?_)
  have value : c.next.next.InBlock tokens closing rest :=
    Cursor.InBlock.next (Cursor.InBlock.next here head) head'
  refine (stays_expression value).bind fun _ ended => ?_
  refine (stays_endDeclaration ended).bind fun _ last => ?_
  exact .step (on_spanFrom start) (.of_ok (on_pure _) last)

theorem stays_statementFrom (here : c.InBlock tokens closing rest) (start : Nat) :
    Stays src tokens closing rest
      (statementFrom start (StatementHead.ofTokens ((c.rest.take 5).map (·.token)))) c := by
  generalize seen : (c.rest.take 5).map (·.token) = next
  unfold StatementHead.ofTokens
  split
  · refine (stays_callStatement here seen).bind fun _ ended => ?_
    exact .step (on_spanFrom start) (.of_ok (on_pure _) ended)
  · refine (stays_callStatement here seen).bind fun _ ended => ?_
    exact .step (on_spanFrom start) (.of_ok (on_pure _) ended)
  · split
    · refine (stays_rawStatement here).bind fun _ ended => ?_
      exact .step (on_spanFrom start) (.of_ok (on_pure _) ended)
    · obtain ⟨word, more⟩ := head_of_upcoming seen
      obtain ⟨dot, more⟩ := head_of_upcoming more
      refine .step on_advance (.step on_advance ?_)
      exact stays_assignment (Cursor.InBlock.next (Cursor.InBlock.next here word) dot) more
  · split
    · refine (stays_rawStatement here).bind fun _ ended => ?_
      exact .step (on_spanFrom start) (.of_ok (on_pure _) ended)
    · exact stays_assignment here seen
  · refine (stays_rawStatement here).bind fun _ ended => ?_
    exact .step (on_spanFrom start) (.of_ok (on_pure _) ended)

theorem stays_statement (here : c.InBlock tokens closing rest) :
    Stays src tokens closing rest statement c := by
  refine .step on_nextStart ((stays_acceptToken here _).bind fun {ended _} run there => ?_)
  cases ended with
  | true => exact .of_ok (on_pure _) there
  | false =>
    refine .step (on_upcoming 5) ((stays_statementFrom there _).bind fun _ behind => ?_)
    exact .of_ok (on_pure _) behind

theorem stays_blockStep (here : c.InBlock tokens closing rest) :
    Stays src tokens closing rest blockStep c := by
  refine .step (on_sees .rbrace) ?_
  split
  · exact .of_ok (on_pure _) here
  · refine .step (by rw [on_expectMore, if_neg here.ne_nil]) ?_
    exact (stays_statement here).bind fun _ behind => .of_ok (on_pure _) behind

/-- The statements of a block end in front of its closing brace. -/
theorem stays_statements (here : c.InBlock tokens closing rest) :
    Stays src tokens closing rest (many blockStep) c where
  within run := by
    refine many_induction (motive := fun c _ c' =>
      c.InBlock tokens closing rest → c'.InBlock tokens closing rest) ?_ ?_ run here
    · exact fun ended here => (stays_blockStep here).within ended
    · exact fun stepped later here => later ((stays_blockStep here).within stepped)
  answers groovy := by
    induction few : c.rest.length using Nat.strongRecOn generalizing c with
    | ind n ih =>
      obtain ⟨found, mid, run⟩ := (stays_blockStep here).answers groovy
      have loop := iterates blockStep src c
      rw [run] at loop
      cases found with
      | none => exact ⟨_, _, loop⟩
      | some statement =>
        obtain ⟨others, c', more⟩ :=
          ih _ (few ▸ loop.1) ((stays_blockStep here).within run) rfl
        exact ⟨statement :: others, c', by rw [loop.2, more]; rfl⟩

omit holds in
theorem statements_end {found : List (Option Statement)}
    (run : (many blockStep).on src c = .ok (found, c')) :
    c'.rest.head?.map (·.token) = some (.symbol .rbrace) := by
  refine many_induction (motive := fun _ _ c' =>
    c'.rest.head?.map (·.token) = some (.symbol .rbrace)) (fun ended => ?_) (fun _ => id) run
  rw [blockStep, on_bind_of_ok (on_sees _)] at ended
  split at ended
  · rename_i brace
    cases ended
    exact eq_of_beq brace
  · obtain ⟨_, _, _, ended⟩ := on_bind_eq_ok.mp ended
    obtain ⟨_, _, _, ended⟩ := on_bind_eq_ok.mp ended
    cases ended

theorem block_of_statements {opening : Located} {inner : List Located}
    {found : List (Option Statement)} {mid : Cursor} (inside : c.rest <:+ tokens)
    (ahead : c.rest = opening :: inner ++ closing :: rest)
    (opens : opening.token = .symbol .lbrace) (last : mid.InBlock tokens closing rest)
    (run : (many blockStep).on src c.next = .ok (found, mid)) :
    ∃ c', block.on src c = .ok (⟨found.filterMap id, ⟨opening.start, closing.stop⟩⟩, c') ∧
      c'.rest = rest := by
  have head : c.rest.head?.map (·.token) = some (.symbol .lbrace) := by
    rw [ahead]
    exact congrArg some opens
  have brace := statements_end run
  have left := last.ahead_of_brace brace
  have behind : mid.next = { mid with rest := rest, lastStop := closing.stop } := by
    rw [Cursor.next, left]
  have order : opening.start ≤ closing.stop := by
    have apart : InOrder c.rest := holds.order.sublist inside.sublist
    rw [ahead, List.cons_append] at apart
    have before := List.rel_of_pairwise_cons apart (List.mem_append_right inner List.mem_cons_self)
    have first := (holds.ahead inside opening (by simp [ahead])).some
    have second := (holds.ahead inside closing (by simp [ahead])).some
    omega
  refine ⟨mid.next, ?_, by rw [behind]⟩
  rw [block, on_bind_of_ok on_nextStart, on_bind_of_ok (by rw [on_expect, if_pos head]),
    on_bind_of_ok run, on_bind_of_ok (by rw [on_expect, if_pos brace]),
    on_bind_of_ok (on_spanFrom _), on_pure, behind, ahead]
  simp only [List.cons_append, List.head?_cons, Option.map_some, Option.getD_some,
    Nat.max_eq_left order]

theorem inBlock_of_ahead {opening : Located} {inner : List Located} (inside : c.rest <:+ tokens)
    (ahead : c.rest = opening :: inner ++ closing :: rest)
    (closes : closing.token = .symbol .rbrace) (nested : Nested inner) :
    c.next.InBlock tokens closing rest := by
  have behind : c.next.rest = inner ++ closing :: rest := by
    rw [Cursor.next, ahead]
    rfl
  have suffix : c.next.rest <:+ c.rest := ⟨[opening], by rw [behind, ahead]; rfl⟩
  exact ⟨suffix.trans inside, closes, inner, behind, nested⟩

end Stays

/-- A block whose brackets nest ends at the brace that closes it, and in Groovy it can be read
whatever stands in it. -/
theorem block_ends_at_brace {text : String} {dialect : Dialect} {located : List Located}
    (tokens : tokenize text = .ok located) {c : Cursor} {opening closing : Located}
    {inner rest : List Located} (inside : c.rest <:+ codeTokens located)
    (ahead : c.rest = opening :: inner ++ closing :: rest)
    (opens : opening.token = .symbol .lbrace) (closes : closing.token = .symbol .rbrace)
    (nested : Nested inner) :
    (∀ b c', block.on (sourceOf text dialect located) c = .ok (b, c') →
      c'.rest = rest ∧ b.span = ⟨opening.start, closing.stop⟩) ∧
    (dialect = .groovy → ∃ b c', block.on (sourceOf text dialect located) c = .ok (b, c')) := by
  have holds := @holds_of_tokenize text dialect located tokens
  have here := inBlock_of_ahead inside ahead closes nested
  have stays : Stays (sourceOf text dialect located) (codeTokens located) closing rest
    (many blockStep) c.next := stays_statements here
  constructor
  · intro b c' run
    obtain ⟨_, _, look, more⟩ := on_bind_eq_ok.mp run
    obtain ⟨_, _, opened, more⟩ := on_bind_eq_ok.mp more
    obtain ⟨found, mid, each, _⟩ := on_bind_eq_ok.mp more
    rw [on_nextStart] at look
    cases look
    obtain ⟨_, rfl⟩ := on_expect_eq_ok opened
    obtain ⟨_, whole, behind⟩ := block_of_statements inside ahead opens (stays.within each) each
    rw [whole] at run
    cases run
    exact ⟨behind, rfl⟩
  · intro groovy
    obtain ⟨found, mid, each⟩ := stays.answers groovy
    obtain ⟨c', run, _⟩ := block_of_statements inside ahead opens (stays.within each) each
    exact ⟨_, c', run⟩

/-- A body with a statement of two blocks, and the declaration behind it. -/
def branches : String :=
  "\x7bif(a)\x7bb()\x7delse c\n\x7dint d"

/-- The tokens between the braces of the body. -/
def branchTokens : List Located :=
  [⟨.name "if", 1, 3⟩, ⟨.symbol .lparen, 3, 4⟩, ⟨.name "a", 4, 5⟩, ⟨.symbol .rparen, 5, 6⟩,
   ⟨.symbol .lbrace, 6, 7⟩, ⟨.name "b", 7, 8⟩, ⟨.symbol .lparen, 8, 9⟩, ⟨.symbol .rparen, 9, 10⟩,
   ⟨.symbol .rbrace, 10, 11⟩, ⟨.name "else", 11, 15⟩, ⟨.name "c", 16, 17⟩]

theorem branches_end_at_brace :
    let opening : Located := ⟨.symbol .lbrace, 0, 1⟩
    let closing : Located := ⟨.symbol .rbrace, 18, 19⟩
    let rest : List Located := [⟨.name "int", 19, 22⟩, ⟨.name "d", 23, 24⟩]
    let located := opening :: branchTokens ++ closing :: rest
    tokenize branches = .ok located ∧ Nested branchTokens ∧
      ∃ b c', block.on (sourceOf branches .groovy located) (start located) = .ok (b, c') ∧
        c'.rest = rest ∧ b.span = ⟨0, 19⟩ := by
  intro opening closing rest located
  have tokens : tokenize branches = .ok located := eq_ok_of_toOption (by decide +kernel)
  have nested : Nested branchTokens := by decide
  obtain ⟨ends, answers⟩ := @block_ends_at_brace branches .groovy located tokens (start located)
    opening closing branchTokens rest List.suffix_rfl rfl rfl rfl nested
  obtain ⟨b, c', run⟩ := answers rfl
  exact ⟨tokens, nested, b, c', run, ends b c' run⟩

end Parser

end CreatorSynth
