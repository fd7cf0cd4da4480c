import Mathlib.Data.List.Chain
import CreatorSynth.Proofs.Parser.Nesting

/-! Where the initializer of a field ends in Java. It is to end before the first semicolon outside
brackets, at the latest. The scanner also counts angles, and goes on while one is open, so it does
just if every angle taken for one of type arguments is closed by then. -/
namespace CreatorSynth

/-- The open angles behind several tokens. -/
def anglesBehind : (angles : Nat) → (previous : Option Token) → List Located → Nat
  | angles, _, [] => angles
  | angles, previous, t :: ts =>
      anglesBehind (t.token.nestAngles previous angles) (some t.token) ts

theorem Token.nestAngles_of_compares {t : Token} {previous : Option Token}
    (compares : t = .symbol .langle → Token.beforeTypeArgs previous = false) :
    t.nestAngles previous 0 = 0 := by
  cases t with
  | symbol s =>
    cases s with
    | langle => simp [Token.nestAngles, compares rfl]
    | _ => rfl
  | _ => rfl

/-- No angle is taken for one of type arguments where none stands behind a capital name or a dot. -/
theorem anglesBehind_of_compares {previous : Option Token} {ts : List Located}
    (compares : (previous :: ts.map (some ·.token)).IsChain fun before t =>
      t = some (.symbol .langle) → Token.beforeTypeArgs before = false) :
    anglesBehind 0 previous ts = 0 := by
  induction ts generalizing previous with
  | nil => rfl
  | cons t ts ih =>
    rw [List.map_cons, List.isChain_cons_cons] at compares
    rw [anglesBehind, Token.nestAngles_of_compares fun angle => compares.1 (congrArg some angle)]
    exact ih compares.2

/-- The tokens in front of which an initializer ends outside brackets and type arguments. -/
def Token.EndsInitializer (t : Token) : Prop :=
  t = .symbol .comma ∨ t = .symbol .semicolon

theorem Token.length_await {t : Token} {awaited next : List Symbol}
    (read : t.await awaited = some next) : next.length = t.nest awaited.length := by
  rcases t.await_cases with ⟨_, _, _, _, opens, nest⟩ | ⟨_, _, _, closes, nest⟩ | ⟨plain, nest⟩
  · rw [opens] at read
    cases read
    rw [nest, List.length_cons]
  · rw [closes] at read
    split at read
    · cases read
      rw [nest, List.length_tail]
    · cases read
  · rw [plain] at read
    cases read
    rw [nest]

namespace Source

variable {src : Source} {awaited next : List Symbol} {angles : Nat} {previous : Option Token}
  {passed : Option Nat} {t : Located} {ts inside rest : List Located}

theorem passInitializer_ends (ends : t.token.EndsInitializer) :
    src.passInitializer 0 0 previous passed (t :: ts) = .ok (passed, t :: ts) := by
  rw [passInitializer, if_pos ⟨rfl, rfl⟩, if_pos (by rcases ends with comma | semi <;> simp [*])]
  rfl

theorem passInitializer_goes_on (java : src.dialect = .java)
    (read : t.token.await awaited = some next)
    (within : awaited = [] → angles = 0 → ¬t.token.EndsInitializer) :
    src.passInitializer awaited.length angles previous passed (t :: ts) =
      src.passInitializer next.length (t.token.nestAngles previous angles) (some t.token)
        (some t.stop) ts := by
  rw [Token.length_await read, passInitializer]
  split
  · rename_i outside
    obtain rfl := List.eq_nil_of_length_eq_zero outside.1
    have other := within rfl outside.2
    -- A brace would close one that is not open.
    have inBraces : t.token ≠ .symbol .rbrace := by
      intro brace
      rw [brace] at read
      cases read
    have breaks : src.breaksAfter passed t.start = .ok false := by
      unfold breaksAfter breaksBetween
      rw [java]
      cases passed <;> rfl
    rw [if_neg fun ends => by
      rcases ends with comma | semi | brace
      · exact other (.inl comma)
      · exact other (.inr semi)
      · exact inBraces brace, breaks]
    rfl
  · rfl

/-- An initializer has a place to end in the stretch, given the closing brackets awaited and the
angles open in front of it. -/
def EndsIn (awaited : List Symbol) (angles : Nat) (previous : Option Token) (ts : List Located) :
    Prop :=
  ∃ taken t more, ts = taken ++ t :: more ∧ awaitBehind awaited taken = some [] ∧
    anglesBehind angles previous taken = 0 ∧ t.token.EndsInitializer

theorem endsIn_cons (read : t.token.await awaited = some next) :
    EndsIn awaited angles previous (t :: ts) ↔
      (awaited = [] ∧ angles = 0 ∧ t.token.EndsInitializer) ∨
        EndsIn next (t.token.nestAngles previous angles) (some t.token) ts := by
  constructor
  · rintro ⟨taken, u, more, whole, level, closed, ends⟩
    cases taken with
    | nil =>
      cases whole
      exact .inl ⟨Option.some.inj level, closed, ends⟩
    | cons first taken =>
      cases whole
      rw [awaitBehind, read, Option.bind_some] at level
      exact .inr ⟨taken, u, more, rfl, level, closed, ends⟩
  · rintro (⟨rfl, rfl, ends⟩ | ⟨taken, u, more, rfl, level, closed, ends⟩)
    · exact ⟨[], t, ts, rfl, rfl, rfl, ends⟩
    · refine ⟨t :: taken, u, more, rfl, ?_, closed, ends⟩
      rw [awaitBehind, read, Option.bind_some]
      exact level

theorem passInitializer_stops (java : src.dialect = .java)
    (read : awaitBehind awaited inside = some next) (ends : EndsIn awaited angles previous inside) :
    ∃ found left, src.passInitializer awaited.length angles previous passed (inside ++ rest) =
      .ok (found, left ++ rest) := by
  induction inside generalizing awaited angles previous passed with
  | nil =>
    obtain ⟨taken, t, more, whole, _⟩ := ends
    simp at whole
  | cons t inside ih =>
    obtain ⟨mid, first, more⟩ := Option.bind_eq_some_iff.mp read
    by_cases here : awaited = [] ∧ angles = 0 ∧ t.token.EndsInitializer
    · obtain ⟨rfl, rfl, stopper⟩ := here
      exact ⟨passed, t :: inside, passInitializer_ends stopper⟩
    · rw [List.cons_append, passInitializer_goes_on java first
        fun level closed ends => here ⟨level, closed, ends⟩]
      exact ih more (((endsIn_cons first).mp ends).resolve_left here)

/-- Where there is no such place, the scanner comes to the end of the stretch. -/
theorem passInitializer_goes_through (java : src.dialect = .java)
    (read : awaitBehind awaited inside = some next)
    (none : ¬EndsIn awaited angles previous inside) :
    ∃ previous' passed',
      src.passInitializer awaited.length angles previous passed (inside ++ rest) =
        src.passInitializer next.length (anglesBehind angles previous inside) previous' passed'
          rest := by
  induction inside generalizing awaited angles previous passed with
  | nil =>
    cases read
    exact ⟨previous, passed, rfl⟩
  | cons t inside ih =>
    obtain ⟨mid, first, more⟩ := Option.bind_eq_some_iff.mp read
    rw [endsIn_cons first, not_or] at none
    rw [List.cons_append, passInitializer_goes_on java first
      fun level closed ends => none.1 ⟨level, closed, ends⟩]
    exact ih more none.2

/-- At a semicolon outside brackets an open angle alone keeps the scanner going. -/
theorem passInitializer_semicolon_iff {semi : Located} (java : src.dialect = .java)
    (semicolon : semi.token = .symbol .semicolon) :
    (∃ found left, src.passInitializer 0 angles previous passed (semi :: rest) =
      .ok (found, left ++ semi :: rest)) ↔ angles = 0 := by
  constructor
  · rintro ⟨found, left, run⟩
    by_contra stillOpen
    have plain : semi.token.await [] = some [] := by
      rw [semicolon]
      rfl
    have beyond : src.passInitializer 0 angles previous passed (semi :: rest) =
        src.passInitializer 0 _ _ _ rest :=
      passInitializer_goes_on java plain fun _ closed => absurd closed stillOpen
    rw [run] at beyond
    -- Behind the semicolon there is less left than from it on.
    obtain ⟨taken, whole, _⟩ := Parser.passInitializer_passes beyond.symm
    have length := congrArg List.length whole
    simp only [List.length_append, List.length_cons] at length
    omega
  · rintro rfl
    exact ⟨passed, [], passInitializer_ends (.inr semicolon)⟩

/-- With a semicolon behind brackets that nest, the first one outside brackets, the scanner stops in
front of it or before just if no angle is open at the semicolon, or at a comma on the way. -/
theorem passInitializer_by_semicolon_iff {semi : Located} (java : src.dialect = .java)
    (nested : Nested inside) (semicolon : semi.token = .symbol .semicolon)
    (first : ∀ taken t more, inside = taken ++ t :: more → Nested taken →
      t.token ≠ .symbol .semicolon) :
    (∃ found left, src.passInitializer 0 0 none none (inside ++ semi :: rest) =
      .ok (found, left ++ semi :: rest)) ↔
    anglesBehind 0 none inside = 0 ∨ ∃ taken comma more, inside = taken ++ comma :: more ∧
      Nested taken ∧ anglesBehind 0 none taken = 0 ∧ comma.token = .symbol .comma := by
  have commas : EndsIn [] 0 none inside ↔ ∃ taken comma more, inside = taken ++ comma :: more ∧
      Nested taken ∧ anglesBehind 0 none taken = 0 ∧ comma.token = .symbol .comma := by
    constructor
    · rintro ⟨taken, t, more, whole, level, closed, ends⟩
      exact ⟨taken, t, more, whole, level, closed,
        ends.resolve_right (first taken t more whole level)⟩
    · rintro ⟨taken, t, more, whole, level, closed, comma⟩
      exact ⟨taken, t, more, whole, level, closed, .inl comma⟩
  rw [← commas]
  by_cases early : EndsIn [] 0 none inside
  · exact iff_of_true (passInitializer_stops java nested early) (.inr early)
  · obtain ⟨previous, passed, run⟩ := passInitializer_goes_through java nested early
    rw [List.length_nil] at run
    rw [run, or_iff_left early]
    exact passInitializer_semicolon_iff java semicolon

theorem passInitializer_of_compares {semi : Located} (java : src.dialect = .java)
    (nested : Nested inside) (semicolon : semi.token = .symbol .semicolon)
    (first : ∀ taken t more, inside = taken ++ t :: more → Nested taken →
      t.token ≠ .symbol .semicolon)
    (compares : (none :: inside.map (some ·.token)).IsChain fun before t =>
      t = some (.symbol .langle) → Token.beforeTypeArgs before = false) :
    ∃ found left, src.passInitializer 0 0 none none (inside ++ semi :: rest) =
      .ok (found, left ++ semi :: rest) :=
  (passInitializer_by_semicolon_iff java nested semicolon first).mpr
    (.inl (anglesBehind_of_compares compares))

end Source

namespace Parser

variable {src : Source} {c c' : Cursor} {text : String} {inside rest : List Located} {semi : Located}

/-- An initializer that is read leaves the semicolon behind it just if every angle taken for one of
type arguments is closed there, or was at a comma in front of it. -/
theorem initializer_by_semicolon_iff (java : src.dialect = .java)
    (ahead : c.rest = inside ++ semi :: rest) (nested : Nested inside)
    (semicolon : semi.token = .symbol .semicolon)
    (first : ∀ taken t more, inside = taken ++ t :: more → Nested taken →
      t.token ≠ .symbol .semicolon)
    (run : initializer.on src c = .ok (text, c')) :
    (∃ left, c'.rest = left ++ semi :: rest) ↔
    anglesBehind 0 none inside = 0 ∨ ∃ taken comma more, inside = taken ++ comma :: more ∧
      Nested taken ∧ anglesBehind 0 none taken = 0 ∧ comma.token = .symbol .comma := by
  have scanned : (∃ found left, src.passInitializer 0 0 none none (inside ++ semi :: rest) =
      .ok (found, left ++ semi :: rest)) ↔ _ :=
    Source.passInitializer_by_semicolon_iff java nested semicolon first
  rw [← scanned, ← ahead]
  rw [initializer, on_bind_of_ok on_nextStart] at run
  obtain ⟨passed, found, run⟩ := of_passing (g := id) run
  rw [on_cut] at run
  split at run
  · cases run
    simp [found, Prod.ext_iff]
  · cases run

end Parser

def comparedConstant : String :=
  "class A \x7b boolean small = MAX < 5; int x; boolean wide = MAX > 5; int y; \x7d"

/-- The initializer `MAX < 5` takes the field behind it and half of the next one, since the constant
it begins with has a capital. -/
theorem comparedConstant_swallows :
    ((parseUnit comparedConstant .java).toOption.map fun unit => unit.classes.map fun c =>
      c.fields.map fun f => (f.name, f.initializer)) =
    some [[("small", some "MAX < 5; int x; boolean wide = MAX > 5"), ("y", none)]] := by
  decide +kernel

end CreatorSynth
