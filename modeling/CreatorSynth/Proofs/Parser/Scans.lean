import CreatorSynth.Proofs.Parser.Progress
import CreatorSynth.Proofs.Parser.Taking
import CreatorSynth.Proofs.Token.Sewn

/-! Stretches of a source that are passed over and kept as text: which tokens they are made of in
Java, and that the same tokens are passed over again wherever they stand. -/
namespace CreatorSynth
open Text

/-- Whether a stretch ends in front of a token, by the number of open brackets and the token behind
it. -/
abbrev Ends := Nat → Token → Option Token → Bool

namespace Ends

/-- An expression. -/
def expression : Ends := fun depth t _ =>
  depth == 0 && (t == .symbol .semicolon || t == .symbol .rbrace)

/-- An argument of a call. -/
def argument : Ends := fun depth t _ =>
  depth == 0 && (t == .symbol .rparen || t == .symbol .comma)

/-- A statement. The closing brace of its last block is the end as well. -/
def statement : Ends := fun depth t next =>
  expression depth t next ||
    (t.nest depth == 0 && t == .symbol .rbrace && !Token.continuesBlock next)

/-- A token that ends a stretch does not keep the one in front of it from doing so. -/
class Steady (ends : Ends) : Prop where
  bounded : ∀ {depth t next}, ends depth t next = true → ends depth t none = true
  steady : ∀ {depth t next depth' u}, ends depth t next = true →
    ends depth' u (some t) = ends depth' u none

theorem expression_eq_true {depth : Nat} {t : Token} {next : Option Token}
    (ended : expression depth t next = true) :
    depth = 0 ∧ (t = .symbol .semicolon ∨ t = .symbol .rbrace) := by
  simpa [expression] using ended

theorem argument_eq_true {depth : Nat} {t : Token} {next : Option Token}
    (ended : argument depth t next = true) :
    depth = 0 ∧ (t = .symbol .rparen ∨ t = .symbol .comma) := by
  simpa [argument] using ended

theorem statement_eq_true {depth : Nat} {t : Token} {next : Option Token}
    (ended : statement depth t next = true) :
    (depth = 0 ∧ (t = .symbol .semicolon ∨ t = .symbol .rbrace)) ∨
      depth = 1 ∧ t = .symbol .rbrace ∧ Token.continuesBlock next = false := by
  rw [statement, Bool.or_eq_true] at ended
  rcases ended with plain | closes
  · exact .inl (expression_eq_true plain)
  · simp only [Bool.and_eq_true, beq_iff_eq, Bool.not_eq_true'] at closes
    obtain ⟨⟨nested, rfl⟩, other⟩ := closes
    have level : depth - 1 = 0 := nested
    cases depth with
    | zero => exact .inl ⟨rfl, .inr rfl⟩
    | succ depth => exact .inr ⟨by omega, rfl, other⟩

instance : Steady expression :=
  ⟨id, fun _ => rfl⟩

instance : Steady argument :=
  ⟨id, fun _ => rfl⟩

instance : Steady statement where
  bounded ended := by
    rw [statement, Bool.or_eq_true, Bool.and_eq_true] at ended ⊢
    exact ended.imp_right fun closed => ⟨closed.1, rfl⟩
  steady ended := by
    obtain ⟨_, rfl | rfl⟩ | ⟨_, rfl, _⟩ := statement_eq_true ended <;> rfl

end Ends

/-- The number of open brackets behind tokens if a stretch does not end among them. -/
def depthOver (ends : Ends) : (depth : Nat) → List Token → Option Nat
  | depth, [] => some depth
  | depth, t :: ts => if ends depth t ts.head? then none else depthOver ends (t.nest depth) ts

section Depth

variable {ends : Ends} {depth depth' : Nat} {t : Token} {ts us : List Token}

theorem depthOver_cons (further : depthOver ends depth (t :: ts) = some depth') :
    ends depth t ts.head? = false ∧ depthOver ends (t.nest depth) ts = some depth' := by
  rw [depthOver] at further
  split at further
  · cases further
  · rename_i goesOn
    exact ⟨by simpa using goesOn, further⟩

/-- What follows does not end a stretch that goes on where the source ends. -/
theorem Ends.further [ends.Steady] (next : Option Token) (here : ends depth t ts.head? = false) :
    ends depth t (ts.head?.or next) = false := by
  cases head : ts.head? with
  | some u => rwa [head] at here
  | none =>
    rw [head] at here
    cases ended : ends depth t (none.or next) with
    | false => rfl
    | true =>
      rw [Steady.bounded ended] at here
      cases here

theorem depthOver_append [ends.Steady] (first : depthOver ends depth ts = some depth') :
    depthOver ends depth (ts ++ us) = depthOver ends depth' us := by
  induction ts generalizing depth with
  | nil =>
    cases first
    rfl
  | cons t ts ih =>
    obtain ⟨here, later⟩ := depthOver_cons first
    have further := Ends.further us.head? here
    rw [List.cons_append, depthOver, List.head?_append, further]
    exact ih later

theorem depthOver_concat (across : depthOver ends depth (ts ++ [t]) = some depth') :
    ∃ last, ends last t none = false ∧ t.nest last = depth' := by
  induction ts generalizing depth with
  | nil =>
    obtain ⟨here, same⟩ := depthOver_cons across
    exact ⟨depth, here, Option.some.inj same⟩
  | cons u ts ih => exact ih (depthOver_cons across).2

theorem depthOver_continued (across : depthOver .statement depth ts = some 1)
    (continued : Token.continuesBlock us.head? = true) :
    depthOver .statement depth (ts ++ .symbol .rbrace :: us) = depthOver .statement 0 us := by
  have further : Ends.statement 1 (.symbol .rbrace) us.head? = false := by
    simp [Ends.statement, Ends.expression, continued]
  rw [depthOver_append across, depthOver, further]
  rfl

end Depth

section Located

variable {src : Source} {ends : Ends} {depth depth' : Nat} {passed : Option Nat} {t : Located}
  {ts rest : List Located}

/-- Where the last of these tokens ends, or the one before them. -/
def stopOver (passed : Option Nat) (ts : List Located) : Option Nat :=
  (ts.getLast?.map (·.stop)).or passed

theorem stopOver_cons (passed : Option Nat) (t : Located) (ts : List Located) :
    stopOver passed (t :: ts) = stopOver (some t.stop) ts := by
  rw [stopOver, stopOver, List.getLast?_cons]
  cases ts.getLast? <;> rfl

theorem stopOver_ahead {pieces : List Piece} (some : pieces ≠ [])
    (last : ∀ p ∈ pieces.getLast?, ∃ t, p = .token t ∧ t.isDoc = false) (start : Nat)
    (passed : Option Nat) : stopOver passed (Piece.ahead start pieces) =
      Option.some (start + byteLength (pieces.flatMap Piece.text)) := by
  rcases List.eq_nil_or_concat pieces with rfl | ⟨front, piece, rfl⟩
  · exact absurd rfl some
  obtain ⟨t, rfl, plain⟩ := last piece (by simp)
  rw [List.concat_eq_append, Piece.ahead_append, Piece.ahead_token _ _ plain, Piece.ahead_nil,
    stopOver, List.getLast?_append]
  simp [Piece.text, byteLength_append, Nat.add_assoc]

/-- A function that goes on with the next token as long as the stretch does not end goes over all
of the stretch. -/
theorem eq_of_depthOver {α : Type} [ends.Steady] {f : Nat → Option Nat → List Located → α}
    (passed : Option Nat)
    (step : ∀ {depth passed t ts}, ends depth t.token (ts.head?.map (·.token)) = false →
      f depth passed (t :: ts) = f (t.token.nest depth) (some t.stop) ts)
    (further : depthOver ends depth (ts.map (·.token)) = some depth') :
    f depth passed (ts ++ rest) = f depth' (stopOver passed ts) rest := by
  induction ts generalizing depth passed with
  | nil =>
    cases further
    rfl
  | cons t ts ih =>
    obtain ⟨here, later⟩ := depthOver_cons further
    rw [List.cons_append, stopOver_cons, ← ih _ later]
    refine step ?_
    rw [List.head?_append, Option.map_or, ← List.head?_map]
    exact Ends.further _ here

/-- Either a stretch goes on through all tokens, or it ends in front of one of them. -/
theorem exists_end (ends : Ends) [ends.Steady] (depth : Nat) (ts : List Located) :
    (∃ depth', depthOver ends depth (ts.map (·.token)) = some depth') ∨
      ∃ taken t more depth', ts = taken ++ t :: more ∧
        depthOver ends depth (taken.map (·.token)) = some depth' ∧
        ends depth' t.token (more.head?.map (·.token)) = true := by
  induction ts generalizing depth with
  | nil => exact .inl ⟨depth, rfl⟩
  | cons t ts ih =>
    cases here : ends depth t.token (ts.head?.map (·.token)) with
    | true => exact .inr ⟨[], t, ts, depth, rfl, rfl, here⟩
    | false =>
      have goesOn (us : List Located) (same : ends depth t.token (us.head?.map (·.token)) = false) :
          depthOver ends depth ((t :: us).map (·.token)) =
            depthOver ends (t.token.nest depth) (us.map (·.token)) := by
        rw [List.map_cons, depthOver, List.head?_map, same]
        rfl
      rcases ih (t.token.nest depth) with ⟨depth', through⟩ | ⟨taken, u, more, depth', rfl, across, ended⟩
      · exact .inl ⟨depth', (goesOn ts here).trans through⟩
      · refine .inr ⟨t :: taken, u, more, depth', rfl, ?_, ended⟩
        rw [goesOn taken, across]
        cases taken with
        | cons v taken => exact here
        | nil => exact (Ends.Steady.steady ended).symm.trans here

namespace Source

theorem breaksAfter_java (java : src.dialect = .java) (passed : Option Nat) (start : Nat) :
    src.breaksAfter passed start = .ok false := by
  cases passed with
  | none => rfl
  | some stop => rw [breaksAfter, breaksBetween, java]

theorem passExpression_cons (calm : depth = 0 → src.breaksAfter passed t.start = .ok false) :
    src.passExpression depth passed (t :: ts) =
      if Ends.expression depth t.token (ts.head?.map (·.token)) then .ok (passed, t :: ts)
      else src.passExpression (t.token.nest depth) (some t.stop) ts := by
  rw [passExpression]
  cases depth with
  | zero =>
    rw [calm rfl]
    by_cases ended : t.token = .symbol .semicolon ∨ t.token = .symbol .rbrace
    · simp [Ends.expression, ended, pure, Except.pure]
    · simp [Ends.expression, ended, bind, Except.bind]
  | succ depth => simp [Ends.expression]

theorem passExpression_java (java : src.dialect = .java) :
    src.passExpression depth passed (t :: ts) =
      if Ends.expression depth t.token (ts.head?.map (·.token)) then .ok (passed, t :: ts)
      else src.passExpression (t.token.nest depth) (some t.stop) ts :=
  passExpression_cons fun _ => breaksAfter_java java _ _

theorem passStatement_cons (calm : depth = 0 → src.breaksAfter passed t.start = .ok false) :
    src.passStatement depth passed (t :: ts) =
      if Ends.statement depth t.token (ts.head?.map (·.token)) then
        if depth = 0 then
          if t.token = .symbol .semicolon then .ok (passed, some t.stop, ts)
          else .ok (passed, passed, t :: ts)
        else .ok (some t.stop, some t.stop, ts)
      else src.passStatement (t.token.nest depth) (some t.stop) ts := by
  rw [passStatement]
  cases depth with
  | zero =>
    rw [calm rfl]
    by_cases semicolon : t.token = .symbol .semicolon
    · simp [Ends.statement, Ends.expression, semicolon, pure, Except.pure]
    · by_cases brace : t.token = .symbol .rbrace
      · simp [Ends.statement, Ends.expression, brace, pure, Except.pure]
      · simp [Ends.statement, Ends.expression, semicolon, brace, bind, Except.bind]
  | succ depth =>
    by_cases closes : t.token.nest (depth + 1) = 0 ∧ t.token = .symbol .rbrace ∧
        (!Token.continuesBlock (ts.head?.map (·.token))) = true
    · simp [Ends.statement, Ends.expression, closes, pure, Except.pure]
    · have further : Ends.statement (depth + 1) t.token (ts.head?.map (·.token)) = false := by
        simpa [Ends.statement, Ends.expression] using closes
      rw [further, if_neg closes]
      simp

theorem passStatement_java (java : src.dialect = .java) :
    src.passStatement depth passed (t :: ts) =
      if Ends.statement depth t.token (ts.head?.map (·.token)) then
        if depth = 0 then
          if t.token = .symbol .semicolon then .ok (passed, some t.stop, ts)
          else .ok (passed, passed, t :: ts)
        else .ok (some t.stop, some t.stop, ts)
      else src.passStatement (t.token.nest depth) (some t.stop) ts :=
  passStatement_cons fun _ => breaksAfter_java java _ _

theorem passExpression_over (java : src.dialect = .java)
    (further : depthOver .expression depth (ts.map (·.token)) = some depth') :
    src.passExpression depth passed (ts ++ rest) =
      src.passExpression depth' (stopOver passed ts) rest :=
  eq_of_depthOver _ (fun goesOn => by rw [passExpression_java java, goesOn]; rfl) further

theorem passStatement_over (java : src.dialect = .java)
    (further : depthOver .statement depth (ts.map (·.token)) = some depth') :
    src.passStatement depth passed (ts ++ rest) =
      src.passStatement depth' (stopOver passed ts) rest :=
  eq_of_depthOver _ (fun goesOn => by rw [passStatement_java java, goesOn]; rfl) further

/-- What an expression is made of, and what ends it. -/
theorem exists_expression (java : src.dialect = .java) {found : Passed}
    (run : src.passExpression depth passed ts = .ok found) :
    ∃ taken t more, ts = taken ++ t :: more ∧
      depthOver .expression depth (taken.map (·.token)) = some 0 ∧
      (t.token = .symbol .semicolon ∨ t.token = .symbol .rbrace) ∧
      found = (stopOver passed taken, t :: more) := by
  rcases exists_end .expression depth ts with
    ⟨depth', through⟩ | ⟨taken, t, more, depth', rfl, across, ended⟩
  · have whole : src.passExpression depth passed (ts ++ []) = _ := passExpression_over java through
    rw [List.append_nil, run] at whole
    cases whole
  · rw [passExpression_over java across, passExpression_java java, ended] at run
    obtain ⟨rfl, stops⟩ := Ends.expression_eq_true ended
    cases run
    exact ⟨taken, t, more, rfl, across, stops, rfl⟩

/-- What a statement is made of, and what ends it: a semicolon, the end of the block it stands in,
or its own last brace. -/
theorem exists_statement (java : src.dialect = .java) {found : Option Nat × Passed}
    (run : src.passStatement depth passed ts = .ok found) :
    ∃ taken t more, ts = taken ++ t :: more ∧
      ((depthOver .statement depth (taken.map (·.token)) = some 0 ∧
          ((t.token = .symbol .semicolon ∧ found = (stopOver passed taken, some t.stop, more)) ∨
            t.token = .symbol .rbrace ∧
              found = (stopOver passed taken, stopOver passed taken, t :: more))) ∨
        depthOver .statement depth (taken.map (·.token)) = some 1 ∧ t.token = .symbol .rbrace ∧
          Token.continuesBlock (more.head?.map (·.token)) = false ∧
          found = (some t.stop, some t.stop, more)) := by
  rcases exists_end .statement depth ts with
    ⟨depth', through⟩ | ⟨taken, t, more, depth', rfl, across, ended⟩
  · have whole : src.passStatement depth passed (ts ++ []) = _ := passStatement_over java through
    rw [List.append_nil, run] at whole
    cases whole
  · rw [passStatement_over java across, passStatement_java java, ended] at run
    refine ⟨taken, t, more, rfl, ?_⟩
    rcases Ends.statement_eq_true ended with ⟨rfl, semicolon | brace⟩ | ⟨rfl, brace, other⟩
    · simp only [semicolon, ↓reduceIte] at run
      cases run
      exact .inl ⟨across, .inl ⟨semicolon, rfl⟩⟩
    · simp only [brace, ↓reduceIte] at run
      cases run
      exact .inl ⟨across, .inr ⟨brace, rfl⟩⟩
    · cases run
      exact .inr ⟨across, brace, other, rfl⟩

end Source

theorem callArguments_cons {start : Nat} :
    callArguments depth start (t :: ts) =
      if Ends.argument depth t.token (ts.head?.map (·.token)) then
        if t.token = .symbol .rparen then some ([(start, t.start)], t, ts)
        else (callArguments 0 t.stop ts).map fun found => ((start, t.start) :: found.1, found.2)
      else callArguments (t.token.nest depth) start ts := by
  rw [callArguments]
  cases depth with
  | zero =>
    by_cases paren : t.token = .symbol .rparen
    · simp [Ends.argument, paren]
    · by_cases comma : t.token = .symbol .comma
      · simp [Ends.argument, comma]
      · simp [Ends.argument, paren, comma]
  | succ depth => simp [Ends.argument]

theorem callArguments_over {start : Nat}
    (further : depthOver .argument depth (ts.map (·.token)) = some depth') :
    callArguments depth start (ts ++ rest) = callArguments depth' start rest :=
  eq_of_depthOver (f := fun depth _ ts => callArguments depth start ts) none
    (fun goesOn => by rw [callArguments_cons, goesOn]; rfl) further

theorem exists_argument {start : Nat} {found : List (Nat × Nat) × Located × List Located}
    (run : callArguments depth start ts = some found) :
    ∃ taken t more, ts = taken ++ t :: more ∧
      depthOver .argument depth (taken.map (·.token)) = some 0 ∧
      ((t.token = .symbol .rparen ∧ found = ([(start, t.start)], t, more)) ∨
        t.token = .symbol .comma ∧ ∃ others, callArguments 0 t.stop more = some others ∧
          found = ((start, t.start) :: others.1, others.2)) := by
  rcases exists_end .argument depth ts with
    ⟨depth', through⟩ | ⟨taken, t, more, depth', rfl, across, ended⟩
  · have whole : callArguments depth start (ts ++ []) = _ := callArguments_over through
    rw [List.append_nil, run] at whole
    cases whole
  · rw [callArguments_over across, callArguments_cons, ended] at run
    obtain ⟨rfl, paren | comma⟩ := Ends.argument_eq_true ended
    · simp only [paren, ↓reduceIte] at run
      cases run
      exact ⟨taken, t, more, rfl, across, .inl ⟨paren, rfl⟩⟩
    · simp only [comma, ↓reduceIte] at run
      obtain ⟨others, later, rfl⟩ := Option.map_eq_some_iff.mp run
      exact ⟨taken, t, more, rfl, across, .inr ⟨comma, others, later, rfl⟩⟩

end Located

end CreatorSynth
