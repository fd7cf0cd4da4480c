import CreatorSynth.Proofs.Parser.Ahead
import CreatorSynth.Proofs.Token.Places
import CreatorSynth.Proofs.Token.Splice

/-! Parsers that take certain pieces and stop in front of those behind, with a known answer. -/
namespace CreatorSynth

/-- The pieces of several items with a separator between them. -/
def separatedBy (separator : List Piece) : List (List Piece) → List Piece
  | [] => []
  | first :: others => first ++ others.flatMap (separator ++ ·)

namespace Parser
open Piece

variable {α β γ δ : Type} {src : Source} {pieces others more : List Piece}

/-- In front of the pieces and more, the parser takes the pieces and answers as said. -/
structure Takes (src : Source) (p : Parser α) (pieces more : List Piece) (answer : α → Prop) :
    Prop where
  take : ∀ {c : Cursor} {before : List Char}, At src c before (pieces ++ more) →
    ∃ a c' before', p.on src c = .ok (a, c') ∧ At src c' before' more ∧ answer a

namespace Takes

variable {p : Parser α} {f : α → Parser β} {A : α → Prop} {B : β → Prop}

theorem bind (first : Takes src p pieces (others ++ more) A)
    (second : ∀ a, A a → Takes src (f a) others more B) :
    Takes src (p >>= f) (pieces ++ others) more B := by
  refine ⟨fun here => ?_⟩
  rw [List.append_assoc] at here
  obtain ⟨a, mid, _, run, between, known⟩ := first.take here
  obtain ⟨b, c', before', run', behind, answer⟩ := (second a known).take between
  exact ⟨b, c', before', by rw [on_bind_of_ok run, run'], behind, answer⟩

theorem finish (first : Takes src p pieces more A)
    (second : ∀ a, A a → Takes src (f a) [] more B) : Takes src (p >>= f) pieces more B := by
  have both := @Takes.bind _ _ _ _ [] _ _ _ _ _ first second
  rwa [List.append_nil] at both

theorem look (first : Takes src p [] (pieces ++ more) A)
    (second : ∀ a, A a → Takes src (f a) pieces more B) : Takes src (p >>= f) pieces more B :=
  first.bind second

theorem step {piece : Piece} (first : Takes src p [piece] (pieces ++ more) A)
    (second : ∀ a, A a → Takes src (f a) pieces more B) :
    Takes src (p >>= f) (piece :: pieces) more B :=
  first.bind second

theorem pure {a : α} (known : A a) : Takes src (Pure.pure a) [] more A :=
  ⟨fun here => ⟨a, _, _, rfl, here, known⟩⟩

theorem gap {g : List Char} (rest : Takes src p pieces more A) :
    Takes src p (.gap g :: pieces) more A :=
  ⟨fun here => rest.take here.gap⟩

theorem gap_behind {g : List Char} (first : Takes src p pieces (.gap g :: more) A) :
    Takes src p (pieces ++ [.gap g]) more A := by
  refine ⟨fun here => ?_⟩
  rw [List.append_assoc] at here
  obtain ⟨a, c', _, run, behind, known⟩ := first.take here
  exact ⟨a, c', _, run, behind.gap, known⟩

theorem weaken {B : α → Prop} (first : Takes src p pieces more A) (imp : ∀ a, A a → B a) :
    Takes src p pieces more B := by
  refine ⟨fun here => ?_⟩
  obtain ⟨a, c', before', run, behind, known⟩ := first.take here
  exact ⟨a, c', before', run, behind, imp a known⟩

theorem of_same (same : ∀ {c before}, At src c before more →
    ∃ a c', p.on src c = .ok (a, c') ∧ c'.rest = c.rest ∧ A a) : Takes src p [] more A := by
  refine ⟨fun {c before} here => ?_⟩
  obtain ⟨a, c', run, rest, known⟩ := same here
  exact ⟨a, c', before, run, here.moved rest, known⟩

end Takes

theorem at_start {text : String} {dialect : Dialect}
    (whole : pieces.flatMap Piece.text = text.toList) :
    At (sourceOf text dialect (locate 0 pieces)) (start (locate 0 pieces)) [] pieces :=
  ⟨whole.symm, rfl⟩

theorem run_of_pieces {text : String} (whole : pieces.flatMap Piece.text = text.toList)
    (fit : Fit pieces []) (p : Parser α) (dialect : Dialect) :
    ∃ src c, p.run text dialect = p.on src c ∧ src.dialect = dialect ∧ At src c [] pieces := by
  have tokens : tokenize text = .ok (locate 0 pieces) := by
    rw [← String.ofList_toList (s := text), ← whole]
    exact tokenize_of_fit fit
  exact ⟨_, _, run_of_tokenize tokens p dialect, rfl, at_start whole⟩

/-- A parser that takes the first pieces of a text leaves the tokens of the others. -/
theorem run_of_takes {p : Parser α} {A : α → Prop} {text : String}
    (whole : (pieces ++ more).flatMap Piece.text = text.toList) (fit : Fit (pieces ++ more) [])
    (takes : ∀ src, Takes src p pieces more A) (dialect : Dialect) :
    ∃ a c, p.run text dialect = .ok (a, c) ∧ c.rest.map (·.token) = tokens more ∧ A a := by
  obtain ⟨src, c, run, _, here⟩ := run_of_pieces whole fit p dialect
  obtain ⟨a, c', before, taken, behind, known⟩ := (takes src).take here
  refine ⟨a, c', run.trans taken, ?_, known⟩
  rw [behind.rest, map_token_ahead]

/-- In front of the pieces the parser finds an error. -/
structure Fails (src : Source) (p : Parser α) (pieces : List Piece) : Prop where
  fail : ∀ {c : Cursor} {before : List Char}, At src c before pieces → ∃ e, p.on src c = .error e

namespace Fails

variable {p : Parser α} {f : α → Parser β} {A : α → Prop}

theorem bind (first : Fails src p pieces) : Fails src (p >>= f) pieces := by
  refine ⟨fun here => ?_⟩
  obtain ⟨e, run⟩ := first.fail here
  exact ⟨e, by rw [on_bind, run]; rfl⟩

theorem behind (first : Takes src p pieces more A) (second : ∀ a, A a → Fails src (f a) more) :
    Fails src (p >>= f) (pieces ++ more) := by
  refine ⟨fun here => ?_⟩
  obtain ⟨a, mid, _, run, between, known⟩ := first.take here
  obtain ⟨e, run'⟩ := (second a known).fail between
  exact ⟨e, by rw [on_bind_of_ok run, run']⟩

theorem look (first : Takes src p [] more A) (second : ∀ a, A a → Fails src (f a) more) :
    Fails src (p >>= f) more :=
  behind first second

theorem step {piece : Piece} (first : Takes src p [piece] pieces A)
    (second : ∀ a, A a → Fails src (f a) pieces) : Fails src (p >>= f) (piece :: pieces) :=
  behind first second

theorem gap {g : List Char} (rest : Fails src p pieces) : Fails src p (.gap g :: pieces) :=
  ⟨fun here => rest.fail here.gap⟩

theorem many {step : Parser (Option α)} (first : Fails src step pieces) :
    Fails src (many step) pieces := by
  refine ⟨fun here => ?_⟩
  obtain ⟨e, run⟩ := first.fail here
  refine ⟨e, ?_⟩
  rw [Parser.many, on_bind_of_ok on_get, repeatWithin, on_bind, run]
  rfl

end Fails

/-- What is refused where certain pieces begin is refused in every text that begins with them. -/
theorem run_error_of_fails {p : Parser α} {text : String} {front : List Piece} {rest : List Char}
    {dialect : Dialect} (whole : text.toList = front.flatMap Piece.text ++ rest)
    (fit : Fit front rest) (apart : rest.head?.any isGapChar = false)
    (fails : ∀ src more, src.dialect = dialect → Fails src p (front ++ more)) :
    ∃ e, p.run text dialect = .error e := by
  cases cuts : Piece.all text.toList with
  | error offset =>
    refine ⟨.unrecognized offset, ?_⟩
    rw [run, tokenize, cuts]
    rfl
  | ok pieces =>
    have tokens : tokenize text = .ok (locate 0 pieces) := by rw [tokenize, cuts]
    rw [whole] at cuts
    obtain ⟨more, left, located⟩ := exists_locate_of_fit fit apart cuts
    rw [located] at tokens
    have here : At (sourceOf text dialect (locate 0 (front ++ more)))
        (start (locate 0 (front ++ more))) [] (front ++ more) := by
      refine at_start ?_
      rw [List.flatMap_append, left, whole]
    obtain ⟨e, failed⟩ := (fails _ more rfl).fail here
    exact ⟨e, (run_of_tokenize tokens p dialect).trans failed⟩

section Primitives

theorem takes_get : Takes src get [] more fun _ => True :=
  .of_same fun _ => ⟨_, _, on_get, rfl, trivial⟩

theorem takes_docBefore (start : Nat) : Takes src (docBefore start) [] more fun _ => True :=
  .of_same fun {c _} _ => ⟨_, c, on_docBefore start, rfl, trivial⟩

theorem takes_nextStart : Takes src nextStart [] more fun _ => True :=
  .of_same fun _ => ⟨_, _, on_nextStart, rfl, trivial⟩

theorem takes_spanFrom (start : Nat) : Takes src (spanFrom start) [] more fun _ => True :=
  .of_same fun _ => ⟨_, _, on_spanFrom start, rfl, trivial⟩

theorem takes_upcoming (n : Nat) : Takes src (upcoming n) [] more (· = (tokens more).take n) :=
  .of_same fun here => ⟨_, _, here.upcoming n, rfl, rfl⟩

theorem takes_sees (s : Symbol) :
    Takes src (sees s) [] more (· = ((tokens more).head? == some (.symbol s))) :=
  .of_same fun here => ⟨_, _, here.sees s, rfl, rfl⟩

theorem takes_advance {t : Token} (plain : t.isDoc = false) :
    Takes src advance [.token t] more fun _ => True :=
  ⟨fun here => ⟨_, _, _, on_advance, here.next plain, trivial⟩⟩

theorem takes_acceptToken {t : Token} (plain : t.isDoc = false) :
    Takes src (acceptToken t) [.token t] more (· = true) := by
  refine ⟨fun {c before} here => ⟨true, c.next, _, ?_, here.next plain, rfl⟩⟩
  rw [on_acceptToken, here.rest_token plain]
  exact if_pos rfl

theorem takes_acceptToken_none {t : Token} (other : (tokens more).head? ≠ some t) :
    Takes src (acceptToken t) [] more (· = false) :=
  .of_same fun {c before} here => ⟨_, c, by rw [on_acceptToken, here.head, if_neg other], rfl, rfl⟩

theorem takes_accept (s : Symbol) : Takes src (accept s) [.token (.symbol s)] more (· = true) :=
  takes_acceptToken rfl

theorem takes_accept_none {s : Symbol} (other : (tokens more).head? ≠ some (.symbol s)) :
    Takes src (accept s) [] more (· = false) :=
  takes_acceptToken_none other

theorem takes_acceptKeyword (word : Keyword) :
    Takes src (acceptKeyword word) [.token (.keyword word)] more (· = true) :=
  takes_acceptToken rfl

theorem takes_acceptKeyword_none {word : Keyword}
    (other : (tokens more).head? ≠ some (.keyword word)) :
    Takes src (acceptKeyword word) [] more (· = false) :=
  takes_acceptToken_none other

theorem takes_expect (s : Symbol) :
    Takes src (expect s) [.token (.symbol s)] more fun _ => True :=
  ⟨fun here => ⟨_, _, _, here.expect, here.next rfl, trivial⟩⟩

theorem takes_expectKeyword (word : Keyword) :
    Takes src (expectKeyword word) [.token (.keyword word)] more fun _ => True := by
  refine ⟨fun {c before} here => ⟨⟨⟩, c.next, _, ?_, here.next rfl, trivial⟩⟩
  rw [on_expectKeyword, here.head]
  exact if_pos rfl

theorem takes_identifier (s : String) : Takes src identifier [.token (.name s)] more (· = s) :=
  ⟨fun here => ⟨_, _, _, here.identifier, here.next rfl, rfl⟩⟩

end Primitives

section Loops

variable {answer : α → γ} {said : β → γ} {item : β → List Piece} {items : List β}

/-- Step by step a loop takes the pieces, and ends in front of more. -/
structure Repeats (src : Source) (step : Parser (Option α)) (pieces more : List Piece)
    (answer : List α → Prop) : Prop where
  steps : ∀ {c : Cursor} {before : List Char}, At src c before (pieces ++ more) →
    ∃ found c' before', Steps step src c found c' ∧ At src c' before' more ∧ answer found

namespace Repeats

variable {step : Parser (Option α)} {first : List Piece} {A : α → Prop} {B C : List α → Prop}

theorem done (last : Takes src step [] more (· = none)) (known : B []) :
    Repeats src step [] more B := by
  refine ⟨fun here => ?_⟩
  obtain ⟨_, c', before', run, behind, rfl⟩ := last.take here
  exact ⟨[], c', before', .done run, behind, known⟩

theorem cons (taken : Takes src step first (pieces ++ more) fun found => ∃ a, found = some a ∧ A a)
    (some : tokens first ≠ []) (others : Repeats src step pieces more C)
    (known : ∀ a as, A a → C as → B (a :: as)) : Repeats src step (first ++ pieces) more B := by
  refine ⟨fun here => ?_⟩
  rw [List.append_assoc] at here
  obtain ⟨_, mid, _, run, between, a, rfl, here'⟩ := taken.take here
  obtain ⟨as, c', before', steps, behind, later⟩ := others.steps between
  exact ⟨a :: as, c', before', .more run (here.shorter between some) steps, behind,
    known a as here' later⟩

theorem takes (repeats : Repeats src step pieces more B) : Takes src (many step) pieces more B := by
  refine ⟨fun here => ?_⟩
  obtain ⟨found, c', before', steps, behind, known⟩ := repeats.steps here
  exact ⟨found, c', before', on_many_of_steps steps, behind, known⟩

end Repeats

/-- A loop takes its items one by one, as long as what follows may follow an item. -/
theorem takes_many (Next : List Piece → Prop) {step : Parser (Option α)}
    (each : ∀ b ∈ items, ∀ more, Next more →
      Takes src step (item b) more fun found => ∃ a, found = some a ∧ answer a = said b)
    (next : ∀ b ∈ items, ∀ more, Next (item b ++ more)) (last : Next more)
    (some : ∀ b ∈ items, tokens (item b) ≠ []) (done : Takes src step [] more (· = none)) :
    Takes src (many step) (items.flatMap item) more
      fun found => found.map answer = items.map said := by
  refine Repeats.takes ?_
  induction items with
  | nil => exact .done done rfl
  | cons b items ih =>
    have follows : Next (items.flatMap item ++ more) := by
      cases items with
      | nil => exact last
      | cons b' items =>
        rw [List.flatMap_cons, List.append_assoc]
        exact next b' (List.mem_cons_of_mem _ List.mem_cons_self) _
    have others := ih (fun b member => each b (List.mem_cons_of_mem _ member))
      (fun b member => next b (List.mem_cons_of_mem _ member))
      (fun b member => some b (List.mem_cons_of_mem _ member))
    exact .cons (each b List.mem_cons_self _ follows) (some b List.mem_cons_self) others
      fun a as same known => by rw [List.map_cons, List.map_cons, same, known]

theorem takes_many_none {step : Parser (Option α)} (done : Takes src step [] more (· = none)) :
    Takes src (many step) [] more (· = []) :=
  Repeats.takes (.done done rfl)

theorem takes_separated (Next : List Piece → Prop) {s : Symbol} {p : Parser α}
    {separator : List Piece} (some : items ≠ [])
    (separates : ∀ more, Takes src (accept s) separator more (· = true))
    (each : ∀ b ∈ items, ∀ more, Next more → Takes src p (item b) more (answer · = said b))
    (next : ∀ more, Next (separator ++ more)) (last : Next more)
    (apart : tokens separator ≠ []) (ends : (tokens more).head? ≠ Option.some (.symbol s)) :
    Takes src (separated s p) (separatedBy separator (items.map item)) more
      fun found => found.map answer = items.map said := by
  obtain ⟨first, items, rfl⟩ := List.exists_cons_of_ne_nil some
  have tail : (items.map item).flatMap (separator ++ ·) =
      items.flatMap fun b => separator ++ item b := List.flatMap_map _ _ _
  rw [List.map_cons, separatedBy, tail]
  have follows : Next (items.flatMap (fun b => separator ++ item b) ++ more) := by
    cases items with
    | nil => exact last
    | cons b items =>
      rw [List.flatMap_cons, List.append_assoc, List.append_assoc]
      exact next _
  refine (each first List.mem_cons_self _ follows).bind fun a same => ?_
  have others : Takes src (many do
      if ← accept s then return Option.some (← p)
      return none) (items.flatMap fun b => separator ++ item b) more
      fun found => found.map answer = items.map said := by
    refine takes_many Next (fun b member more follows => ?_) (fun b member more => ?_) last
      (fun b member => ?_) ?_
    · refine (separates _).bind fun found taken => ?_
      subst taken
      exact (each b (List.mem_cons_of_mem _ member) more follows).finish fun a same =>
        .pure ⟨a, rfl, same⟩
    · rw [List.append_assoc]
      exact next _
    · rw [tokens_append]
      exact fun empty => apart (List.append_eq_nil_iff.mp empty).1
    · refine (takes_accept_none ends).look fun found none => ?_
      subst none
      exact .pure rfl
  refine others.finish fun found known => .pure ?_
  rw [List.map_cons, List.map_cons, same, known]

theorem takes_separated_self (Next : List Piece → Prop) {s : Symbol} {p : Parser β}
    {separator : List Piece} (some : items ≠ [])
    (separates : ∀ more, Takes src (accept s) separator more (· = true))
    (each : ∀ b ∈ items, ∀ more, Next more → Takes src p (item b) more (· = b))
    (next : ∀ more, Next (separator ++ more)) (last : Next more)
    (apart : tokens separator ≠ []) (ends : (tokens more).head? ≠ Option.some (.symbol s)) :
    Takes src (separated s p) (separatedBy separator (items.map item)) more (· = items) := by
  have found : Takes src (separated s p) (separatedBy separator (items.map item)) more
      fun found => found.map id = items.map id :=
    takes_separated Next some separates each next last apart ends
  exact found.weaken fun found same => by rwa [List.map_id, List.map_id] at same

end Loops

end Parser

end CreatorSynth
