import CreatorSynth.Proofs.Parser.Progress

/-! Brackets of a source nest if each closing one is of the kind opened last. Where they nest, what
a parser takes does so by itself, although the scanners of raw text do not look at all kinds. -/
namespace CreatorSynth

/-- The bracket that closes another one. -/
def Symbol.closing? : Symbol → Option Symbol
  | lparen => some rparen
  | lbracket => some rbracket
  | lbrace => some rbrace
  | _ => none

/-- The closing brackets awaited behind a token, the next one first; none if the token closes
another bracket than the next one. -/
def Token.await (awaited : List Symbol) : Token → Option (List Symbol)
  | .symbol s =>
      match s.closing? with
      | some closing => some (closing :: awaited)
      | none =>
          if s.isClose then if awaited.head? = some s then some awaited.tail else none
          else some awaited
  | _ => some awaited

/-- As above, behind several tokens. -/
def awaitBehind : List Symbol → List Located → Option (List Symbol)
  | awaited, [] => some awaited
  | awaited, t :: ts => (t.token.await awaited).bind fun next => awaitBehind next ts

/-- Every bracket is closed, by one of its kind. -/
def Nested (ts : List Located) : Prop :=
  awaitBehind [] ts = some []

instance (ts : List Located) : Decidable (Nested ts) :=
  inferInstanceAs (Decidable (awaitBehind [] ts = some []))

theorem Token.await_cases (t : Token) :
    (∃ s closing, t = .symbol s ∧ s.closing? = some closing ∧
      (∀ awaited, t.await awaited = some (closing :: awaited)) ∧
      ∀ depth, t.nest depth = depth + 1) ∨
    (∃ closing, t = .symbol closing ∧ closing.isClose = true ∧
      (∀ awaited, t.await awaited =
        if awaited.head? = some closing then some awaited.tail else none) ∧
      ∀ depth, t.nest depth = depth - 1) ∨
    ((∀ awaited, t.await awaited = some awaited) ∧ ∀ depth, t.nest depth = depth) := by
  cases t with
  | symbol s =>
    cases s with
    | lbrace | lparen | lbracket =>
      exact .inl ⟨_, _, rfl, rfl, fun _ => rfl, fun _ => rfl⟩
    | rbrace | rparen | rbracket =>
      exact .inr (.inl ⟨_, rfl, rfl, fun _ => rfl, fun _ => rfl⟩)
    | _ => exact .inr (.inr ⟨fun _ => rfl, fun _ => rfl⟩)
  | _ => exact .inr (.inr ⟨fun _ => rfl, fun _ => rfl⟩)

section Await

variable {awaited next : List Symbol} {ts us : List Located}

theorem awaitBehind_append : awaitBehind awaited (ts ++ us) =
    (awaitBehind awaited ts).bind fun next => awaitBehind next us := by
  induction ts generalizing awaited with
  | nil => rfl
  | cons t ts ih =>
    simp only [List.cons_append, awaitBehind, Option.bind_assoc]
    exact congrArg _ (funext fun _ => ih)

theorem Token.await_under {t : Token} (known : t.await awaited = some next) (outer : List Symbol) :
    t.await (awaited ++ outer) = some (next ++ outer) := by
  rcases t.await_cases with ⟨s, closing, rfl, _, opens, _⟩ | ⟨closing, rfl, _, closes, _⟩ | ⟨plain, _⟩
  · rw [opens] at known ⊢
    cases known
    rfl
  · rw [closes] at known ⊢
    cases awaited with
    | nil => cases known
    | cons first awaited =>
      rw [List.head?_cons] at known
      rw [List.cons_append, List.head?_cons]
      split at known
      · rename_i same
        cases known
        rw [if_pos same]
        rfl
      · cases known
  · rw [plain] at known ⊢
    cases known
    rfl

/-- What is awaited around a stretch does not matter to it. -/
theorem awaitBehind_under (known : awaitBehind awaited ts = some next) (outer : List Symbol) :
    awaitBehind (awaited ++ outer) ts = some (next ++ outer) := by
  induction ts generalizing awaited with
  | nil =>
    cases known
    rfl
  | cons t ts ih =>
    obtain ⟨mid, first, more⟩ := Option.bind_eq_some_iff.mp known
    rw [awaitBehind, Token.await_under first, Option.bind_some]
    exact ih more

theorem Nested.awaitBehind (nested : Nested ts) (awaited : List Symbol) :
    awaitBehind awaited ts = some awaited :=
  awaitBehind_under nested awaited

theorem Nested.append (first : Nested ts) (second : Nested us) : Nested (ts ++ us) := by
  rw [Nested, awaitBehind_append, first.awaitBehind, Option.bind_some]
  exact second

theorem Nested.nil : Nested [] :=
  rfl

end Await

/-- The stretch nests if its brackets can be read at all where these closing ones are awaited. -/
def Level (awaited : List Symbol) (ts : List Located) : Prop :=
  awaitBehind awaited ts ≠ none → Nested ts

namespace Level

variable {awaited : List Symbol} {ts us : List Located}

theorem of_nested (nested : Nested ts) : Level awaited ts :=
  fun _ => nested

theorem append (first : Level awaited ts) (second : Level awaited us) :
    Level awaited (ts ++ us) := by
  intro read
  rw [awaitBehind_append] at read
  have nested : Nested ts := first fun stuck => read (by rw [stuck, Option.bind_none])
  rw [nested.awaitBehind, Option.bind_some] at read
  exact nested.append (second read)

theorem plain {t : Located} (plain : ∀ awaited, t.token.await awaited = some awaited) :
    Level awaited [t] :=
  of_nested (by rw [Nested, awaitBehind, plain]; rfl)

theorem enclosed {o e : Located} {s closing : Symbol} (opens : o.token = .symbol s)
    (pair : s.closing? = some closing) (closes : e.token = .symbol closing)
    (inner : Level (closing :: awaited) ts) : Level awaited (o :: ts ++ [e]) := by
  have opened : ∀ awaited, o.token.await awaited = some (closing :: awaited) := fun awaited => by
    rw [opens, Token.await, pair]
  have closed : e.token.await [closing] = some [] := by
    rw [closes]
    cases s <;> cases pair <;> rfl
  intro read
  simp only [List.cons_append, awaitBehind, opened, Option.bind_some, awaitBehind_append] at read
  have nested : Nested ts := inner fun stuck => read (by rw [stuck, Option.bind_none])
  simp only [Nested, List.cons_append, awaitBehind, opened, Option.bind_some, awaitBehind_append,
    nested.awaitBehind, closed]

end Level

/-- Only braces are open around the place. -/
class InBraces (awaited : List Symbol) : Prop where
  head : ∀ closing ∈ awaited.head?, closing = .rbrace

instance (awaited : List Symbol) : InBraces (.rbrace :: awaited) :=
  ⟨fun _ head => (Option.some.inj head).symm⟩

instance (n : Nat) : InBraces (List.replicate n .rbrace) := by
  cases n with
  | zero => exact ⟨nofun⟩
  | succ n => exact ⟨fun _ head => (Option.some.inj head).symm⟩

/-- Tokens passed over by a scanner that counts brackets without their kind, from a depth down to
zero. There the scanner stops in front of a certain bracket. -/
inductive Passed (bound : Symbol) : (depth : Nat) → List Located → Prop
  | done : Passed bound 0 []
  | token {depth : Nat} {t : Located} {ts : List Located}
      (inside : depth = 0 → t.token ≠ .symbol bound) (more : Passed bound (t.token.nest depth) ts) :
      Passed bound depth (t :: ts)

/-- Counting without kinds is enough where the brackets nest. -/
theorem Passed.nests {bound : Symbol} {depth : Nat} {ts : List Located}
    (passed : Passed bound depth ts) {inner outer : List Symbol} (height : inner.length = depth)
    (around : ∀ closing ∈ outer.head?, closing = bound)
    (read : awaitBehind (inner ++ outer) ts ≠ none) : awaitBehind inner ts = some [] := by
  induction passed generalizing inner with
  | done =>
    rw [List.eq_nil_of_length_eq_zero height]
    rfl
  | @token depth t ts inside more ih =>
    simp only [awaitBehind] at read ⊢
    rcases t.token.await_cases with ⟨s, closing, _, _, opens, nest⟩ |
      ⟨closing, symbol, _, closes, nest⟩ | ⟨plain, nest⟩
    · rw [opens, Option.bind_some] at read ⊢
      exact @ih (closing :: inner) (by rw [nest, List.length_cons, height]) read
    · cases inner with
      | nil =>
        subst height
        -- At depth zero the bracket would have to close one around the place.
        rw [List.nil_append, closes] at read
        split at read
        · rename_i head
          exact absurd (around closing head ▸ symbol) (inside rfl)
        · exact absurd rfl read
      | cons first inner =>
        rw [closes, List.cons_append, List.head?_cons] at read
        rw [closes, List.head?_cons]
        split at read
        · rename_i same
          rw [if_pos same]
          refine ih ?_ read
          rw [nest, ← height]
          rfl
        · exact absurd rfl read
    · rw [plain, Option.bind_some] at read ⊢
      exact ih (by rw [nest, height]) read

theorem Passed.level {ts : List Located} (passed : Passed .rbrace 0 ts) (awaited : List Symbol)
    [within : InBraces awaited] : Level awaited ts :=
  fun read => passed.nests rfl within.head read

section Group

variable {opening closing : Symbol} {last : Located} {rest : List Located}

/-- The tokens through a closing bracket with so many of its kind awaited in front of it. They end
where brackets that nest close this one. -/
def Closes (closing : Symbol) (depth : Nat) (last : Located) (rest ts : List Located) : Prop :=
  ∃ taken, ts = taken ++ rest ∧ taken.getLast? = some last ∧
    ∀ inner outer : List Symbol, inner.count closing = depth →
      awaitBehind (inner ++ closing :: outer) taken ≠ none →
      awaitBehind (inner ++ [closing]) taken = some []

theorem Closes.cons {depth next : Nat} {t : Located} {ts : List Located}
    (closes : Closes closing next last rest ts)
    (step : ∀ inner outer : List Symbol, inner.count closing = depth →
      t.token.await (inner ++ closing :: outer) ≠ none →
      ∃ more : List Symbol, more.count closing = next ∧
        ∀ outer, t.token.await (inner ++ closing :: outer) = some (more ++ closing :: outer)) :
    Closes closing depth last rest (t :: ts) := by
  obtain ⟨taken, whole, ends, nests⟩ := closes
  refine ⟨t :: taken, by rw [whole, List.cons_append], ?_, fun inner outer count read => ?_⟩
  · rw [List.getLast?_cons, ends, Option.getD_some]
  · have first : t.token.await (inner ++ closing :: outer) ≠ none := fun stuck => read (by
      rw [awaitBehind, stuck, Option.bind_none])
    obtain ⟨more, counted, known⟩ := step inner outer count first
    rw [awaitBehind, known, Option.bind_some] at read ⊢
    exact nests more outer counted read

theorem await_other {t : Token} (pair : opening.closing? = some closing)
    (opens : t ≠ .symbol opening) (closes : t ≠ .symbol closing) {inner outer : List Symbol}
    (read : t.await (inner ++ closing :: outer) ≠ none) :
    ∃ more : List Symbol, more.count closing = inner.count closing ∧
      ∀ outer, t.await (inner ++ closing :: outer) = some (more ++ closing :: outer) := by
  rcases t.await_cases with ⟨s, other, rfl, known, pushes, _⟩ | ⟨other, rfl, _, pops, _⟩ | ⟨plain, _⟩
  · have apart : other ≠ closing := by
      rintro rfl
      apply opens
      cases s <;> cases known <;> cases opening <;> cases pair <;> rfl
    exact ⟨other :: inner, List.count_cons_of_ne apart, fun outer => pushes _⟩
  · have apart : closing ≠ other := fun same => closes (by rw [same])
    rw [pops] at read
    cases inner with
    | nil =>
      rw [List.nil_append, List.head?_cons, if_neg fun same => apart (Option.some.inj same)] at read
      exact absurd rfl read
    | cons first inner =>
      rw [List.cons_append, List.head?_cons] at read
      split at read
      · rename_i same
        cases same
        refine ⟨inner, (List.count_cons_of_ne (Ne.symm apart)).symm, fun outer => ?_⟩
        rw [pops, List.cons_append, List.head?_cons, if_pos rfl, List.tail_cons]
      · exact absurd rfl read
  · exact ⟨inner, rfl, fun outer => plain _⟩

theorem await_closing (pair : opening.closing? = some closing) (awaited : List Symbol) :
    (Token.symbol closing).await awaited =
      if awaited.head? = some closing then some awaited.tail else none := by
  cases opening <;> cases pair <;> rfl

/-- A group ends where its brackets do, although only those of its kind are counted. -/
theorem closes_of_closeGroup {depth : Nat} {ts : List Located}
    (pair : opening.closing? = some closing)
    (found : closeGroup opening closing depth ts = some (last, rest)) :
    Closes closing depth last rest ts := by
  induction ts generalizing depth with
  | nil => cases found
  | cons t ts ih =>
    simp only [closeGroup] at found
    split at found
    · rename_i opens
      refine (ih found).cons fun inner outer count _ => ⟨closing :: inner, ?_, fun outer => ?_⟩
      · rw [List.count_cons_self, count]
      · rw [opens, Token.await, pair]
        rfl
    · rename_i other
      split at found
      · rename_i closes
        cases depth with
        | zero =>
          cases found
          refine ⟨[last], rfl, rfl, fun inner outer count read => ?_⟩
          cases inner with
          | nil =>
            rw [List.nil_append, awaitBehind, closes, await_closing pair, List.head?_cons,
              if_pos rfl]
            rfl
          | cons first inner =>
            rw [awaitBehind, closes, await_closing pair, List.cons_append, List.head?_cons] at read
            split at read
            · rename_i same
              cases same
              rw [List.count_cons_self] at count
              cases count
            · exact absurd rfl read
        | succ depth =>
          refine (ih found).cons fun inner outer count read => ?_
          rw [closes, await_closing pair] at read
          rw [closes]
          cases inner with
          | nil => cases count
          | cons first inner =>
            rw [List.cons_append, List.head?_cons] at read
            split at read
            · rename_i same
              cases same
              rw [List.count_cons_self] at count
              refine ⟨inner, Nat.succ.inj count, fun outer => ?_⟩
              rw [await_closing pair, List.cons_append, List.head?_cons, if_pos rfl, List.tail_cons]
            · exact absurd rfl read
      · rename_i apart
        refine (ih found).cons fun inner outer count read => ?_
        rw [← count]
        exact await_other pair other apart read

end Group

end CreatorSynth
