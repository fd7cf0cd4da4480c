import Mathlib.Data.List.Find
import CreatorSynth.Proofs.Decl.Shift
import CreatorSynth.Proofs.Parser.Progress
import CreatorSynth.Proofs.Text.Boundary

/-! A text read by itself, and read as a part of a longer text with a closing brace behind it. Where
the first parse succeeds the second one answers the same, so many bytes further on. -/
namespace CreatorSynth
open Text

namespace Parser

/-- A parser that fails where no token is left. -/
class Demands {α : Type} (src : Source) (p : Parser α) : Prop where
  some : ∀ {c r}, p.on src c = .ok r → 0 < c.rest.length

instance {α : Type} {src : Source} {p : Parser α} [Eats src p] : Demands src p where
  some run := Nat.zero_lt_of_lt (Eats.eats run)

instance {α β : Type} {src : Source} {p : Parser α} {f : α → Parser β} [Demands src p] :
    Demands src (p >>= f) where
  some run := by
    obtain ⟨a, mid, first, _⟩ := on_bind_eq_ok.mp run
    exact Demands.some first

instance Demands.next {α : Type} {src : Source} {f : Nat → Parser α}
    [later : ∀ start, Demands src (f start)] : Demands src (nextStart >>= f) where
  some run := by
    rw [on_bind_of_ok on_nextStart] at run
    exact (later _).some run

instance {src : Source} : Demands src expectMore where
  some run := by
    rw [on_expectMore] at run
    split at run
    · cases run
    · rename_i some
      exact List.length_pos_iff.mpr some

/-- A step that stays where it is at the end, and then a parser that fails there. -/
theorem Demands.stuck {α β : Type} {src : Source} {p : Parser α} {f : α → Parser β} {a : α}
    (stays : ∀ c : Cursor, c.rest = [] → p.on src c = .ok (a, c)) (later : Demands src (f a)) :
    Demands src (p >>= f) where
  some {c r} run := by
    apply List.length_pos_iff.mpr
    intro none
    rw [on_bind_of_ok (stays c none)] at run
    exact List.length_pos_iff.mp (later.some run) none

section Ends

variable {src : Source} {c : Cursor} (none : c.rest = [])
include none

theorem on_sees_end (s : Symbol) : (sees s).on src c = .ok (false, c) := by
  rw [on_sees, none]
  rfl

theorem on_accept_end (s : Symbol) : (accept s).on src c = .ok (false, c) := by
  rw [on_accept, none]
  rfl

theorem on_upcoming_end (n : Nat) : (upcoming n).on src c = .ok ([], c) := by
  rw [on_upcoming, none]
  cases n <;> rfl

end Ends

/-- A source and a longer one around it, with a closing brace behind its tokens. -/
structure Enclosure where
  inner : Source
  outer : Source
  front : List Char
  back : List Char
  brace : Located
  /-- At least as many as there are tokens in the text. -/
  limit : Nat
  text : outer.text = front ++ inner.text ++ back
  dialect : outer.dialect = inner.dialect
  docs : outer.docs = inner.docs.map (Located.behind (byteLength front))
  closes : brace.token = .symbol .rbrace

namespace Enclosure

variable (E : Enclosure)

def offset : Nat :=
  byteLength E.front

/-- Tokens of the text as they are ahead in the longer one. -/
def closed (ts : List Located) : List Located :=
  ts.map (Located.behind E.offset) ++ [E.brace]

theorem closed_cons (token : Token) (start stop : Nat) (ts : List Located) :
    E.closed (⟨token, start, stop⟩ :: ts) =
      ⟨token, E.offset + start, E.offset + stop⟩ :: E.closed ts :=
  rfl

/-- Cursors at the same place of the text. Whatever is in front of the text counts as its start. -/
structure At (c d : Cursor) : Prop where
  rest : d.rest = E.closed c.rest
  lastStop : d.lastStop - E.offset = c.lastStop
  docFloor : d.docFloor - E.offset = c.docFloor
  classes : d.classes = c.classes.map (ClassDecl.shift E.offset)
  short : c.rest.length ≤ E.limit

/-- Where the left parser succeeds on the text by itself, with so many tokens ahead at least, the
right one does on the longer text. -/
structure Follows {α β : Type} (ahead : Nat) (f : α → β) (p : Parser α) (q : Parser β) : Prop where
  follow : ∀ {c d c' : Cursor} {a : α}, E.At c d → ahead ≤ c.rest.length →
    p.on E.inner c = .ok (a, c') → ∃ d', q.on E.outer d = .ok (f a, d') ∧ E.At c' d'

/-- A parser whose answer has no places in it. -/
class Same {α : Type} (p : Parser α) : Prop where
  same : E.Follows 0 id p p

variable {E}

namespace At

variable {c d : Cursor} {t : Token}

theorem moved {rest : List Located} {i j : Nat} (here : E.At c d)
    (fewer : rest.length ≤ c.rest.length) (place : j - E.offset = i) :
    E.At { c with rest := rest, lastStop := i } { d with rest := E.closed rest, lastStop := j } :=
  ⟨rfl, place, here.docFloor, here.classes, Nat.le_trans fewer here.short⟩

theorem next {u : Located} {rest : List Located} (here : E.At c d) (ahead : c.rest = u :: rest) :
    E.At c.next d.next := by
  have right : d.rest = u.behind E.offset :: E.closed rest := by
    rw [here.rest, ahead]
    rfl
  have fewer : rest.length ≤ c.rest.length := by
    rw [ahead]
    exact Nat.le_succ _
  unfold Cursor.next
  rw [ahead, right]
  exact here.moved fewer (Nat.add_sub_cancel_left _ _)

theorem next_of_pos (here : E.At c d) (some : 0 < c.rest.length) : E.At c.next d.next := by
  obtain ⟨u, rest, ahead⟩ := List.exists_cons_of_length_pos some
  exact here.next ahead

theorem next_of_head (here : E.At c d) (head : c.rest.head?.map (·.token) = some t) :
    E.At c.next d.next := by
  apply here.next_of_pos
  have shorter := next_length_of_head head
  omega

theorem head_of_pos (here : E.At c d) (some : 0 < c.rest.length) :
    d.rest.head?.map (·.token) = c.rest.head?.map (·.token) := by
  obtain ⟨u, rest, ahead⟩ := List.exists_cons_of_length_pos some
  rw [here.rest, ahead]
  rfl

theorem head_iff (here : E.At c d) (other : t ≠ .symbol .rbrace) :
    d.rest.head?.map (·.token) = some t ↔ c.rest.head?.map (·.token) = some t := by
  rw [here.rest]
  cases c.rest with
  | nil => simp [closed, E.closes, other.symm]
  | cons u rest => rfl

end At

section Rules

variable {α β γ δ : Type} {n : Nat} {f : α → β} {g : γ → δ} {p : Parser γ} {q : Parser δ}
  {h : γ → Parser α} {k : δ → Parser β}

theorem Follows.weaken {m : Nat} {p : Parser α} {q : Parser β} (follows : E.Follows m f p q)
    (le : m ≤ n) : E.Follows n f p q where
  follow here more run := follows.follow here (Nat.le_trans le more) run

theorem Follows.bind (first : E.Follows n g p q) (next : ∀ a, E.Follows 0 f (h a) (k (g a))) :
    E.Follows n f (p >>= h) (q >>= k) where
  follow here more run := by
    obtain ⟨a, mid, begun, ended⟩ := on_bind_eq_ok.mp run
    obtain ⟨mid', begun', there⟩ := first.follow here more begun
    obtain ⟨d', ended', behind⟩ := (next a).follow there (Nat.zero_le _) ended
    exact ⟨d', by rw [on_bind_of_ok begun', ended'], behind⟩

/-- A step without places in its answer, and then another one. -/
theorem Follows.after {k : γ → Parser β} [first : E.Same p]
    (next : ∀ a, E.Follows 0 f (h a) (k a)) : E.Follows n f (p >>= h) (p >>= k) :=
  (first.same.bind next).weaken (Nat.zero_le n)

theorem Follows.pure {a : α} {b : β} (same : f a = b) :
    E.Follows n f (Pure.pure a) (Pure.pure b) where
  follow here _ run := by
    cases run
    exact ⟨_, by rw [same, on_pure], here⟩

/-- A parser that fails on the text by itself may do anything on the longer one. -/
theorem Follows.throw {e : ParseError} {q : Parser β} :
    E.Follows n f (MonadExcept.throw e : Parser α) q where
  follow _ _ run := by cases run

theorem Follows.ite {condition : Prop} [Decidable condition] {p p' : Parser α} {q q' : Parser β}
    (yes : E.Follows n f p q) (no : E.Follows n f p' q') :
    E.Follows n f (if condition then p else p') (if condition then q else q') := by
  split <;> assumption

theorem Follows.peeking {p : Parser α} {q : Parser β} {u : Source → Cursor → α}
    {v : Source → Cursor → β} (left : ∀ src c, p.on src c = .ok (u src c, c))
    (right : ∀ src c, q.on src c = .ok (v src c, c))
    (same : ∀ {c d}, E.At c d → n ≤ c.rest.length → v E.outer d = f (u E.inner c)) :
    E.Follows n f p q where
  follow {c d c' a} here more run := by
    rw [left] at run
    cases run
    exact ⟨d, by rw [right, same here more], here⟩

instance Same.bind {h : γ → Parser α} [first : E.Same p] [next : ∀ a, E.Same (h a)] :
    E.Same (p >>= h) :=
  ⟨first.same.bind fun a => (next a).same⟩

instance Same.ite {condition : Prop} [Decidable condition] {p q : Parser α} [yes : E.Same p]
    [no : E.Same q] : E.Same (if condition then p else q) :=
  ⟨yes.same.ite no.same⟩

instance Same.pure (a : α) : E.Same (Pure.pure a : Parser α) :=
  ⟨.pure rfl⟩

end Rules

section Primitives

variable {α β : Type} {n : Nat} {f : α → β}

theorem same_acceptToken {t : Token} (other : t ≠ .symbol .rbrace) : E.Same (acceptToken t) where
  same := by
    constructor
    intro c d c' found here _ run
    rw [on_acceptToken] at run ⊢
    split at run
    · rename_i head
      cases run
      rw [if_pos ((here.head_iff other).mpr head)]
      exact ⟨d.next, rfl, here.next_of_head head⟩
    · rename_i none
      cases run
      rw [if_neg fun head => none ((here.head_iff other).mp head)]
      exact ⟨d, rfl, here⟩

theorem same_accept {s : Symbol} (other : s ≠ .rbrace) : E.Same (accept s) :=
  same_acceptToken fun same => other (Token.symbol.inj same)

instance (word : Keyword) : E.Same (acceptKeyword word) :=
  same_acceptToken (by simp)

instance (word : String) : E.Same (acceptWord word) :=
  same_acceptToken (by simp)

theorem same_sees {s : Symbol} (other : s ≠ .rbrace) : E.Same (sees s) where
  same := by
    apply Follows.peeking (fun _ _ => on_sees s) (fun _ _ => on_sees s)
    intro c d here _
    rw [Bool.eq_iff_iff, beq_iff_eq, id_eq, beq_iff_eq]
    exact here.head_iff fun same => other (Token.symbol.inj same)

theorem follows_sees (s : Symbol) : E.Follows 1 id (sees s) (sees s) := by
  apply Follows.peeking (fun _ _ => on_sees s) (fun _ _ => on_sees s)
  intro c d here some
  rw [here.head_of_pos some, id_eq]

/-- A symbol that has to come next is one of the text, a closing brace too. -/
instance (s : Symbol) : E.Same (expect s) where
  same := by
    constructor
    intro c d c' a here _ run
    rw [on_expect] at run ⊢
    split at run
    · rename_i head
      cases run
      have shorter := next_length_of_head head
      rw [here.head_of_pos (Nat.zero_lt_of_lt shorter), if_pos head]
      exact ⟨d.next, rfl, here.next_of_head head⟩
    · cases run

instance (word : Keyword) : E.Same (expectKeyword word) where
  same := by
    constructor
    intro c d c' a here _ run
    rw [on_expectKeyword] at run ⊢
    split at run
    · rename_i head
      cases run
      have same := here.head_iff (t := .keyword word) (by simp)
      rw [if_pos (same.mpr head)]
      exact ⟨d.next, rfl, here.next_of_head head⟩
    · cases run

instance : E.Same identifier where
  same := by
    constructor
    intro c d c' name here _ run
    have some : 0 < c.rest.length := Nat.zero_lt_of_lt (Eats.eats run)
    have there := here.next_of_pos some
    rw [on_identifier] at run ⊢
    rw [here.head_of_pos some]
    split at run
    · cases run
      exact ⟨d.next, rfl, there⟩
    · cases run
      exact ⟨d.next, rfl, there⟩
    · cases run

instance : E.Same expectMore where
  same := by
    constructor
    intro c d c' a here _ run
    rw [on_expectMore] at run ⊢
    split at run
    · cases run
    · cases run
      rw [here.rest, if_neg (by simp [closed])]
      exact ⟨d, rfl, here⟩

theorem Follows.advancing {p : Parser α} {q : Parser β} (next : E.Follows n f p q) :
    E.Follows (n + 1) f (advance >>= fun _ => p) (advance >>= fun _ => q) where
  follow {c d c' a} here some run := by
    rw [on_bind_of_ok on_advance] at run ⊢
    have there := here.next_of_pos (Nat.lt_of_lt_of_le (Nat.succ_pos n) some)
    apply next.follow there ?_ run
    rw [Cursor.length_next]
    omega

theorem follows_nextStart : E.Follows 1 (E.offset + ·) nextStart nextStart := by
  apply Follows.peeking (fun _ _ => on_nextStart) (fun _ _ => on_nextStart)
  intro c d here some
  obtain ⟨u, rest, ahead⟩ := List.exists_cons_of_length_pos some
  rw [here.rest, ahead]
  rfl

theorem follows_spanFrom (start : Nat) :
    E.Follows n (Span.shift E.offset) (spanFrom start) (spanFrom (E.offset + start)) := by
  apply Follows.peeking (fun _ _ => on_spanFrom start) (fun _ _ => on_spanFrom _)
  intro c d here _
  have last := here.lastStop
  simp only [Span.shift, Span.mk.injEq, true_and]
  omega

theorem follows_docBefore (start : Nat) :
    E.Follows n id (docBefore start) (docBefore (E.offset + start)) := by
  apply Follows.peeking (fun _ _ => on_docBefore start) (fun _ _ => on_docBefore _)
  intro c d here _
  have floor := here.docFloor
  rw [docAt, docAt, E.docs, ← List.map_reverse, List.find?_map, Option.map_map]
  apply congrArg (Option.map _)
  apply List.find?_congr
  intro t _
  apply congrArg₂ and
  · apply decide_eq_decide.mpr
    exact Nat.add_le_add_iff_left
  · apply decide_eq_decide.mpr
    change d.docFloor ≤ E.offset + t.start ↔ _
    omega

instance : E.Same closeDocs where
  same := by
    constructor
    intro c d c' a here _ run
    cases closeDocs_eq run
    exact ⟨_, rfl, here.rest, here.lastStop, here.lastStop, here.classes, here.short⟩

theorem follows_raiseDocFloor (start : Nat) :
    E.Follows n id (raiseDocFloor start) (raiseDocFloor (E.offset + start)) where
  follow here _ run := by
    cases run
    exact ⟨_, rfl, here.rest, here.lastStop, Nat.add_sub_cancel_left _ _, here.classes,
      here.short⟩

/-- As many classes are read to their end on either side, so the next one gets the same number. -/
theorem follows_addClass (x : ClassDecl) :
    E.Follows n id (addClass x) (addClass (x.shift E.offset)) where
  follow {c d c' i} here _ run := by
    cases run
    have number : d.classes.length = c.classes.length := by rw [here.classes, List.length_map]
    refine ⟨{ d with classes := d.classes ++ [x.shift E.offset] }, ?_, here.rest, here.lastStop,
      here.docFloor, ?_, here.short⟩
    · rw [id_eq, ← number]
      rfl
    · rw [here.classes, List.map_append]
      rfl

theorem follows_cut (start stop : Nat) :
    E.Follows n id (cut start stop) (cut (E.offset + start) (E.offset + stop)) where
  follow here _ run := by
    rw [on_cut] at run ⊢
    split at run
    · rename_i cs found
      cases run
      have within := slice?_within E.front E.back found
      rw [← E.text] at within
      rw [Nat.add_max_add_left, offset, within]
      exact ⟨_, rfl, here⟩
    · cases run

instance : E.Same endDeclaration where
  same := by
    constructor
    intro c d c' a here some run
    have semicolon : E.Same (accept .semicolon) := same_accept (by decide)
    rw [endDeclaration, on_bind_of_ok on_read] at run ⊢
    rw [E.dialect]
    split at run
    · exact Same.same.follow here some run
    · exact Same.same.follow here some run

/-- Tokens that are looked at. Where the text ends the brace is among them. -/
theorem Follows.looking {h : List Token → Parser α} {k : List Token → Parser β}
    (next : ∀ ts, E.Follows ts.length f (h ts) (k ts))
    (blind : ∀ ts, ts.length < n → k (ts ++ [.symbol .rbrace]) = k ts) :
    E.Follows 0 f (upcoming n >>= h) (upcoming n >>= k) where
  follow {c d c' a} here _ run := by
    rw [on_bind_of_ok (on_upcoming n)] at run ⊢
    have tokens : d.rest.map (·.token) = c.rest.map (·.token) ++ [.symbol .rbrace] := by
      rw [here.rest, closed, List.map_append, List.map_map, List.map_singleton, E.closes]
      rfl
    have same : k ((d.rest.take n).map (·.token)) = k ((c.rest.take n).map (·.token)) := by
      rw [List.map_take, List.map_take, tokens]
      by_cases short : (c.rest.map (·.token)).length < n
      · rw [List.take_of_length_le (Nat.le_of_lt short), List.take_of_length_le, blind _ short]
        rw [List.length_append]
        exact short
      · rw [List.take_append_of_le_length (Nat.le_of_not_lt short)]
    rw [same]
    apply (next _).follow here ?_ run
    rw [List.length_map]
    exact List.length_take_le' n c.rest

theorem Follows.lookingTwo {h : List Token → Parser α} {k : List Token → Parser β}
    (next : ∀ ts, E.Follows ts.length f (h ts) (k ts)) (none : k [.symbol .rbrace] = k [])
    (one : ∀ t, k [t, .symbol .rbrace] = k [t]) :
    E.Follows 0 f (upcoming 2 >>= h) (upcoming 2 >>= k) := by
  apply Follows.looking next
  intro ts short
  match ts, short with
  | [], _ => exact none
  | [t], _ => exact one t

theorem Follows.peeked {h : Option Token → Parser α} {k : Option Token → Parser β}
    (next : ∀ t, E.Follows t.toList.length f (h t) (k t))
    (blind : k (some (.symbol .rbrace)) = k none) :
    E.Follows 0 f (peek >>= h) (peek >>= k) where
  follow {c d c' a} here _ run := by
    rw [on_bind_of_ok on_peek] at run ⊢
    cases ahead : c.rest with
    | nil =>
      rw [ahead] at run
      rw [here.rest, ahead, closed, List.map_nil, List.nil_append, List.head?_cons,
        Option.map_some, E.closes, blind]
      exact (next none).follow here (Nat.zero_le _) run
    | cons u rest =>
      have some : 0 < c.rest.length := by simp [ahead]
      rw [here.head_of_pos some, ahead]
      rw [ahead] at run
      exact (next _).follow here some run

end Primitives

section Demands

variable {α β : Type} {f : α → β}

theorem Follows.demanded {p : Parser α} {q : Parser β} (demands : Demands E.inner p)
    (follows : E.Follows 1 f p q) : E.Follows 0 f p q where
  follow here _ run := follows.follow here (demands.some run) run

theorem Follows.next {h : Nat → Parser α} {k : Nat → Parser β}
    [demands : Demands E.inner (nextStart >>= h)]
    (next : ∀ i, E.Follows 0 f (h i) (k (E.offset + i))) :
    E.Follows 0 f (nextStart >>= h) (nextStart >>= k) :=
  .demanded demands (follows_nextStart.bind next)

end Demands

section Loops

variable {α β : Type} {f : α → β}

/-- What is bounded by the number of tokens has one step more in front of the brace. -/
theorem Follows.within {p : Nat → Parser α} {q : Nat → Parser β}
    (bounded : ∀ {m n : Nat}, m ≤ n → E.Follows 0 f (p m) (q n)) :
    E.Follows 0 f (get >>= fun c => p (c.rest.length + 1))
      (get >>= fun c => q (c.rest.length + 1)) where
  follow {c d c' a} here some run := by
    rw [on_bind_of_ok on_get] at run ⊢
    have longer : c.rest.length + 1 ≤ d.rest.length + 1 := by
      rw [here.rest, closed, List.length_append, List.length_map]
      omega
    exact (bounded longer).follow here some run

theorem follows_repeatWithin {step : Parser (Option α)} {step' : Parser (Option β)}
    (steps : E.Follows 0 (Option.map f) step step') {m n : Nat} (le : m ≤ n) :
    E.Follows 0 (List.map f) (repeatWithin step m) (repeatWithin step' n) := by
  induction m generalizing n with
  | zero => exact .throw
  | succ m ih =>
    obtain ⟨n, rfl⟩ : ∃ n', n = n' + 1 := ⟨n - 1, by omega⟩
    apply steps.bind
    intro found
    cases found with
    | none => exact .pure rfl
    | some a => exact (ih (Nat.le_of_succ_le_succ le)).bind fun others => .pure rfl

theorem follows_many {step : Parser (Option α)} {step' : Parser (Option β)}
    (steps : E.Follows 0 (Option.map f) step step') :
    E.Follows 0 (List.map f) (many step) (many step') :=
  .within fun le => follows_repeatWithin steps le

theorem follows_separated {s : Symbol} (other : s ≠ .rbrace) {item : Parser α}
    {item' : Parser β} (items : E.Follows 0 f item item') :
    E.Follows 0 (List.map f) (separated s item) (separated s item') := by
  have found : E.Same (accept s) := same_accept other
  apply items.bind
  intro first
  refine (follows_many ?_).bind fun others => .pure rfl
  apply Follows.after
  intro further
  exact .ite (items.bind fun a => .pure rfl) (.pure rfl)

instance {step : Parser (Option α)} [steps : E.Same step] : E.Same (many step) where
  same := by
    have each : E.Follows 0 (Option.map id) step step := Option.map_id ▸ steps.same
    have loop := follows_many each
    rwa [List.map_id_fun] at loop

theorem same_separated {s : Symbol} (other : s ≠ .rbrace) {item : Parser α}
    [items : E.Same item] : E.Same (separated s item) where
  same := by
    have found := follows_separated other items.same
    rwa [List.map_id_fun] at found

end Loops

end Enclosure

end Parser

end CreatorSynth
