import CreatorSynth.Proofs.Parser.Scans
import CreatorSynth.Proofs.Parser.Words

/-! What parsers answer in a Java source without comments, and which stretches of the source they
keep as text on the way. -/
namespace CreatorSynth
open Text

namespace Parser
open Piece

/-- A parse of a Java source stands in front of pieces none of which is a comment. -/
structure Standing (src : Source) (c : Cursor) (before : List Char) (pieces : List Piece) :
    Prop where
  here : At src c before pieces
  java : src.dialect = .java
  docs : src.docs = []
  bare : ∀ p ∈ pieces, p.Bare
  stand : AllStand pieces []
  worded : c.Worded

section Standing

variable {src : Source} {c c' : Cursor} {before : List Char} {pieces used more : List Piece}

theorem Standing.behind (standing : Standing src c before (used ++ more))
    (rest : c'.rest = ahead (byteLength (before ++ used.flatMap text)) more)
    (worded : c'.Worded) : Standing src c' (before ++ used.flatMap text) more where
  here := ⟨by rw [standing.here.text, List.flatMap_append, List.append_assoc], rest⟩
  java := standing.java
  docs := standing.docs
  bare := fun p member => standing.bare p (List.mem_append_right _ member)
  stand := (allStand_append.mp standing.stand).2
  worded := worded

theorem Standing.moved (standing : Standing src c before pieces) (same : c'.rest = c.rest)
    (worded : c'.Worded) : Standing src c' before pieces :=
  { standing with here := standing.here.moved same, worded }

theorem Standing.past {taken : List Located} (standing : Standing src c before pieces)
    (split : c.rest = taken ++ c'.rest) (worded : c'.Worded) :
    ∃ used more, pieces = used ++ more ∧ Standing src c' (before ++ used.flatMap text) more ∧
      ahead (byteLength before) used = taken ∧ ∀ p ∈ used.getLast?, ∃ t, p = token t := by
  obtain ⟨used, more, rfl, here, behind, last⟩ :=
    exists_ahead (standing.here.rest.symm.trans split)
  refine ⟨used, more, rfl, standing.behind ?_ worded, here, fun p final => ?_⟩
  · rw [byteLength_append, behind]
  · obtain ⟨t, rfl, _⟩ := last p final
    exact ⟨t, rfl⟩

theorem Standing.map_token (standing : Standing src c before pieces) :
    c.rest.map (·.token) = tokens pieces := by
  rw [standing.here.rest, map_token_ahead]

end Standing

/-- In front of those tokens the parser keeps stretches of the source, and the answer, the stretches
and the tokens it leaves are as said. -/
structure Draws {α : Type} (ts : List Token) (p : Parser α)
    (R : α → List (List Piece) → List Token → Prop) : Prop where
  draw : ∀ {src c before pieces a c'}, Standing src c before pieces → tokens pieces = ts →
    p.on src c = .ok (a, c') →
    ∃ used more before' raws, pieces = used ++ more ∧ Standing src c' before' more ∧
      Holds used raws ∧ R a raws (tokens more)

variable {α β : Type} {ts : List Token} {p q : Parser α} {f : α → Parser β}
  {A : α → List (List Piece) → List Token → Prop} {B : β → List (List Piece) → List Token → Prop}

namespace Draws

theorem bind (first : Draws ts p A) (second : ∀ a raws rest, A a raws rest →
    Draws rest (f a) fun b more rest' => B b (raws ++ more) rest') : Draws ts (p >>= f) B := by
  refine ⟨fun standing same run => ?_⟩
  obtain ⟨a, mid, run, run'⟩ := on_bind_eq_ok.mp run
  obtain ⟨used, more, _, raws, rfl, between, holds, known⟩ := first.draw standing same run
  obtain ⟨used', more', before', raws', rfl, behind, holds', known'⟩ :=
    (second a raws _ known).draw between rfl run'
  exact ⟨used ++ used', more', before', raws ++ raws', (List.append_assoc _ _ _).symm, behind,
    holds.append holds', known'⟩

theorem pure {a : α} (known : A a [] ts) : Draws ts (Pure.pure a) A := by
  refine ⟨fun {_ _ before pieces _ _} standing same run => ?_⟩
  cases run
  subst same
  exact ⟨[], pieces, before, [], rfl, standing, .nil [], known⟩

theorem ite {condition : Prop} [Decidable condition] (yes : condition → Draws ts p A)
    (no : ¬condition → Draws ts q A) : Draws ts (if condition then p else q) A := by
  split
  · exact yes ‹_›
  · exact no ‹_›

/-- Some of the stretches are enough to be said. -/
theorem weaken {A' : α → List (List Piece) → List Token → Prop} (draws : Draws ts p A)
    (imp : ∀ a raws rest, A a raws rest → ∃ fewer, fewer.Sublist raws ∧ A' a fewer rest) :
    Draws ts p A' := by
  refine ⟨fun standing same run => ?_⟩
  obtain ⟨used, more, before', raws, split, behind, holds, known⟩ := draws.draw standing same run
  obtain ⟨fewer, sub, known⟩ := imp _ raws _ known
  exact ⟨used, more, before', fewer, split, behind, holds.sublist sub, known⟩

theorem imp {A' : α → List (List Piece) → List Token → Prop} (draws : Draws ts p A)
    (imp : ∀ a raws rest, A a raws rest → A' a raws rest) : Draws ts p A' :=
  draws.weaken fun a raws rest known => ⟨raws, .refl raws, imp a raws rest known⟩

theorem within (draws : Draws ts p A) :
    Draws ts p fun a raws rest => A a raws rest ∧ rest <:+ ts := by
  refine ⟨fun standing same run => ?_⟩
  obtain ⟨used, more, before', raws, rfl, behind, holds, known⟩ := draws.draw standing same run
  refine ⟨used, more, before', raws, rfl, behind, holds, known, ?_⟩
  rw [← same, tokens_append]
  exact List.suffix_append _ _

/-- What an answer is anyway. -/
theorem with_given {G : α → Prop} (draws : Draws ts p A) (gives : Gives p G) :
    Draws ts p fun a raws rest => A a raws rest ∧ G a := by
  refine ⟨fun standing same run => ?_⟩
  obtain ⟨used, more, before', raws, split, behind, holds, known⟩ := draws.draw standing same run
  exact ⟨used, more, before', raws, split, behind, holds, known, (gives.gives standing.worded run).2⟩

theorem throw (e : ParseError) : Draws ts (MonadExcept.throw e : Parser α) A :=
  ⟨fun _ _ run => by cases run⟩

theorem of_tokens [Onward p] {A : α → List Token → Prop} (known : ∀ {src c a c'}, c.Worded →
    src.docs = [] → c.rest.map (·.token) = ts → p.on src c = .ok (a, c') →
    c'.Worded ∧ A a (c'.rest.map (·.token))) :
    Draws ts p fun a raws rest => raws = [] ∧ A a rest := by
  refine ⟨fun {_ _ _ _ _ c'} standing same run => ?_⟩
  obtain ⟨worded, said⟩ := known standing.worded standing.docs (standing.map_token.trans same) run
  obtain ⟨taken, moves⟩ := Onward.onward run
  obtain ⟨used, more, rfl, behind, _⟩ := standing.past moves.rest worded
  rw [behind.map_token] at said
  exact ⟨used, more, _, [], rfl, behind, .nil used, rfl, said⟩

theorem step {A : α → List Token → Prop}
    (first : Draws ts p fun a raws rest => raws = [] ∧ A a rest)
    (second : ∀ a rest, A a rest → Draws rest (f a) B) : Draws ts (p >>= f) B := by
  refine first.bind fun a raws rest known => ?_
  obtain ⟨rfl, known⟩ := known
  exact second a rest known

theorem given [Onward p] {A : α → Prop} (gives : Gives p A) :
    Draws ts p fun a raws _ => raws = [] ∧ A a :=
  of_tokens (A := fun a _ => A a) fun worded _ _ run => gives.gives worded run

theorem skip [Onward p] {A : α → Prop} (first : Gives p A)
    (second : ∀ a rest, A a → Draws rest (f a) B) : Draws ts (p >>= f) B :=
  step (given first) second

theorem look {A : α → Prop} (same : ∀ {src c a c'}, src.docs = [] →
    c.rest.map (·.token) = ts → p.on src c = .ok (a, c') → c' = c ∧ A a)
    (second : ∀ a, A a → Draws ts (f a) B) : Draws ts (p >>= f) B := by
  refine ⟨fun standing known run => ?_⟩
  obtain ⟨a, mid, run, run'⟩ := on_bind_eq_ok.mp run
  obtain ⟨rfl, said⟩ := same standing.docs (standing.map_token.trans known) run
  exact (second a said).draw standing known run'

section Primitives

theorem nextStart {f : Nat → Parser β} (second : ∀ start, Draws ts (f start) B) :
    Draws ts (Parser.nextStart >>= f) B := by
  refine look (A := fun _ => True) (fun _ _ run => ?_) fun start _ => second start
  rw [on_nextStart] at run
  cases run
  exact ⟨rfl, trivial⟩

theorem get {f : Cursor → Parser β} (second : ∀ c, Draws ts (f c) B) :
    Draws ts (MonadState.get >>= f) B := by
  refine look (A := fun _ => True) (fun _ _ run => ?_) fun c _ => second c
  cases run
  exact ⟨rfl, trivial⟩

theorem spanFrom {start : Nat} {f : Span → Parser β} (second : ∀ span, Draws ts (f span) B) :
    Draws ts (Parser.spanFrom start >>= f) B := by
  refine look (A := fun _ => True) (fun _ _ run => ?_) fun span _ => second span
  cases run
  exact ⟨rfl, trivial⟩

theorem expectMore {f : Unit → Parser β} (second : Draws ts (f ⟨⟩) B) :
    Draws ts (Parser.expectMore >>= f) B := by
  refine look (A := fun _ => True) (fun _ _ run => ?_) fun _ _ => second
  rw [Parser.expectMore, on_bind_of_ok on_atEnd] at run
  split at run
  · rw [on_bind_of_ok on_nextStart] at run
    cases run
  · cases run
    exact ⟨rfl, trivial⟩

theorem docBefore {start : Nat} {f : Option String → Parser β} (second : Draws ts (f none) B) :
    Draws ts (Parser.docBefore start >>= f) B := by
  refine look (A := (· = none)) (fun docs _ run => ?_) fun doc same => same ▸ second
  rw [on_docBefore, docAt, docs] at run
  cases run
  exact ⟨rfl, rfl⟩

theorem upcoming {n : Nat} {f : List Token → Parser β} (second : Draws ts (f (ts.take n)) B) :
    Draws ts (Parser.upcoming n >>= f) B := by
  refine look (A := (· = ts.take n)) (fun _ same run => ?_) fun next same => same ▸ second
  rw [on_upcoming, List.map_take, same] at run
  cases run
  exact ⟨rfl, rfl⟩

theorem sees {s : Symbol} {f : Bool → Parser β}
    (second : Draws ts (f (ts.head? == some (.symbol s))) B) :
    Draws ts (Parser.sees s >>= f) B := by
  refine look (A := (· = (ts.head? == some (.symbol s)))) (fun _ same run => ?_)
    fun found same => same ▸ second
  rw [on_sees, ← List.head?_map, same] at run
  cases run
  exact ⟨rfl, rfl⟩

theorem map_token_next {c : Cursor} {ts : List Token} (ahead : c.rest.map (·.token) = ts) :
    c.next.rest.map (·.token) = ts.tail := by
  rcases c with ⟨_ | ⟨t, rest⟩, last, floor, classes⟩ <;> exact congrArg List.tail ahead

theorem advance {f : Unit → Parser β} (second : Draws ts.tail (f ⟨⟩) B) :
    Draws ts (Parser.advance >>= f) B := by
  refine step (A := fun _ rest => rest = ts.tail) (of_tokens fun worded _ same run => ?_)
    fun _ rest same => same ▸ second
  refine ⟨(Gives.quiet.gives worded run).1, ?_⟩
  rw [on_advance] at run
  cases run
  exact map_token_next same

theorem acceptToken {t : Token} {f : Bool → Parser β}
    (yes : ∀ rest, ts = t :: rest → Draws rest (f true) B)
    (no : ts.head? ≠ some t → Draws ts (f false) B) : Draws ts (Parser.acceptToken t >>= f) B := by
  refine step (A := fun found rest => (found = true ∧ ts = t :: rest) ∨
    found = false ∧ ts.head? ≠ some t ∧ rest = ts) (of_tokens fun worded _ same run => ?_)
    fun found rest known => ?_
  · refine ⟨(Gives.quiet.gives worded run).1, ?_⟩
    rw [on_acceptToken, ← List.head?_map, same] at run
    split at run
    · rename_i head
      obtain ⟨others, shape⟩ := List.head?_eq_some_iff.mp head
      cases run
      exact .inl ⟨rfl, by rw [map_token_next same, shape]; rfl⟩
    · rename_i other
      cases run
      exact .inr ⟨rfl, other, same⟩
  · obtain ⟨rfl, shape⟩ | ⟨rfl, other, rfl⟩ := known
    · exact yes rest shape
    · exact no other

theorem accept {s : Symbol} {f : Bool → Parser β}
    (yes : ∀ rest, ts = .symbol s :: rest → Draws rest (f true) B)
    (no : ts.head? ≠ some (.symbol s) → Draws ts (f false) B) :
    Draws ts (Parser.accept s >>= f) B :=
  acceptToken yes no

theorem expect {s : Symbol} {f : Unit → Parser β}
    (second : ∀ rest, ts = .symbol s :: rest → Draws rest (f ⟨⟩) B) :
    Draws ts (Parser.expect s >>= f) B := by
  refine step (A := fun _ rest => ts = .symbol s :: rest) (of_tokens fun worded _ same run => ?_)
    fun _ rest shape => second rest shape
  refine ⟨(Gives.quiet.gives worded run).1, ?_⟩
  rw [on_expect, ← List.head?_map, same] at run
  split at run
  · rename_i head
    obtain ⟨others, shape⟩ := List.head?_eq_some_iff.mp head
    cases run
    rw [map_token_next same, shape]
    rfl
  · cases run

theorem endDeclaration {f : Unit → Parser β}
    (second : ∀ rest, ts = .symbol .semicolon :: rest → Draws rest (f ⟨⟩) B) :
    Draws ts (Parser.endDeclaration >>= f) B := by
  refine ⟨fun standing same run => (expect second).draw standing same ?_⟩
  rwa [on_bind, on_endDeclaration, standing.java, ← on_bind] at run

theorem identifier {f : String → Parser β}
    (second : ∀ name rest, ts = wordToken name :: rest → IsWord name → Draws rest (f name) B) :
    Draws ts (Parser.identifier >>= f) B := by
  refine step (A := fun name rest => ts = wordToken name :: rest ∧ IsWord name)
    (of_tokens fun worded _ same run => ?_) fun name rest known => second name rest known.1 known.2
  obtain ⟨behind, word⟩ := gives_identifier.gives worded run
  refine ⟨behind, ?_, word⟩
  subst same
  rw [on_identifier, ← List.head?_map] at run
  split at run
  · rename_i head
    obtain ⟨others, shape⟩ := List.head?_eq_some_iff.mp head
    obtain ⟨t, member, token⟩ := List.mem_map.mp (List.mem_of_head? head)
    cases run
    rw [map_token_next rfl, shape, wordToken_of_isName (worded.ahead t member _ token)]
    rfl
  · rename_i head
    obtain ⟨others, shape⟩ := List.head?_eq_some_iff.mp head
    cases run
    rw [map_token_next rfl, shape]
    rfl
  · cases run

end Primitives

section Loops

/-- A loop keeps what its steps keep, one behind the other, and ends where a step has no answer. -/
theorem loop {step : Parser (Option α)}
    {E : List Token → Option α → List (List Piece) → List Token → Prop}
    {R : List Token → List α → List (List Piece) → List Token → Prop}
    (each : ∀ ts, Draws ts step (E ts))
    (done : ∀ {ts raws rest}, E ts none raws rest → R ts [] raws rest)
    (more : ∀ {ts a raws mid as raws' rest}, E ts (some a) raws mid → R mid as raws' rest →
      R ts (a :: as) (raws ++ raws') rest) (ts : List Token) : Draws ts (many step) (R ts) := by
  refine ⟨fun {src c before pieces found c'} standing same run => ?_⟩
  subst same
  refine many_induction (motive := fun c found c' => ∀ {before pieces},
    Standing src c before pieces → ∃ used more before' raws, pieces = used ++ more ∧
      Standing src c' before' more ∧ Holds used raws ∧ R (tokens pieces) found raws (tokens more))
    ?_ ?_ run standing
  · intro c c' ended before pieces standing
    obtain ⟨used, more, before', raws, split, behind, holds, known⟩ := (each _).draw standing rfl ended
    exact ⟨used, more, before', raws, split, behind, holds, done known⟩
  · intro c mid c' a as stepped later before pieces standing
    obtain ⟨used, _, _, raws, rfl, between, holds, known⟩ := (each _).draw standing rfl stepped
    obtain ⟨used', left, before', raws', rfl, behind, holds', others⟩ := later between
    exact ⟨used ++ used', left, before', _, (List.append_assoc _ _ _).symm, behind,
      holds.append holds', more known others⟩

variable {P : α → Prop}

theorem many (kept : α → List (List Piece)) (End : List Token → Prop) {step : Parser (Option α)}
    (each : ∀ ts, Draws ts step fun found raws rest =>
      (∀ a ∈ found, P a) ∧ raws = (found.map kept).getD [] ∧ (found = none → End rest)) :
    Draws ts (many step) fun found raws rest =>
      (∀ a ∈ found, P a) ∧ raws = found.flatMap kept ∧ End rest := by
  refine loop (R := fun _ found raws rest => (∀ a ∈ found, P a) ∧ raws = found.flatMap kept ∧ End rest)
    each ?_ ?_ ts
  · rintro ts raws rest ⟨_, rfl, last⟩
    exact ⟨nofun, rfl, last rfl⟩
  · rintro ts a raws mid as raws' rest ⟨here, rfl, _⟩ ⟨others, rfl, last⟩
    exact ⟨List.forall_mem_cons.mpr ⟨here a rfl, others⟩, rfl, last⟩

theorem many_same {step : Parser (Option α)}
    (each : ∀ ts, Draws ts step fun found raws rest => raws = [] ∧ (found = none → rest = ts)) :
    Draws ts (Parser.many step) fun found raws rest => raws = [] ∧ (found = [] → rest = ts) := by
  refine loop (R := fun ts found raws rest => raws = [] ∧ (found = [] → rest = ts)) each ?_ ?_ ts
  · rintro ts raws rest ⟨none, same⟩
    exact ⟨none, fun _ => same rfl⟩
  · rintro ts a raws mid as raws' rest ⟨rfl, _⟩ ⟨rfl, _⟩
    exact ⟨rfl, nofun⟩

theorem separated (kept : α → List (List Piece)) {s : Symbol} {item : Parser α}
    (each : ∀ ts, Draws ts item fun a raws _ => P a ∧ raws = kept a) :
    Draws ts (separated s item) fun found raws _ =>
      found ≠ [] ∧ (∀ a ∈ found, P a) ∧ raws = found.flatMap kept := by
  refine (each ts).bind fun first raws rest known => ?_
  obtain ⟨here, rfl⟩ := known
  refine (many (P := P) kept (fun _ => True) fun ts => ?_).bind
    fun others raws rest known => .pure ?_
  · refine accept (fun rest _ => ?_) fun _ => .pure ⟨nofun, rfl, fun _ => trivial⟩
    refine (each rest).bind fun a raws rest known => .pure ?_
    exact ⟨fun b same => Option.some.inj same ▸ known.1, by rw [known.2]; simp, nofun⟩
  · obtain ⟨later, rfl, _⟩ := known
    exact ⟨List.cons_ne_nil _ _, List.forall_mem_cons.mpr ⟨here, later⟩, by simp⟩

end Loops

end Draws

end Parser

end CreatorSynth
