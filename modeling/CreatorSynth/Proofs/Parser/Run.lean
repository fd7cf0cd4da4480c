import CreatorSynth.Parser.Classes

/-! Parsers as functions of a source and a cursor, and what the basic ones answer. -/
namespace CreatorSynth
open Text

theorem eq_ok_of_toOption {α ε : Type} {r : Except ε α} {a : α} (found : r.toOption = some a) :
    r = .ok a := by
  cases r with
  | error e => cases found
  | ok b =>
    cases found
    rfl

/-- The cursor behind the next token; at the end it stays where it is. -/
def Cursor.next (c : Cursor) : Cursor :=
  match c.rest with
  | t :: rest => { c with rest := rest, lastStop := t.stop }
  | [] => c

@[simp] theorem Cursor.classes_next (c : Cursor) : c.next.classes = c.classes := by
  rcases c with ⟨_ | ⟨t, rest⟩, last, floor, classes⟩ <;> rfl

namespace Parser

/-- What a parser answers at a cursor, and the cursor behind what it consumed. -/
def on {α : Type} (p : Parser α) (src : Source) (c : Cursor) : Except ParseError (α × Cursor) :=
  (ReaderT.run p src).run c

section Steps

variable {α β : Type} {src : Source} {c c' : Cursor}

@[simp] theorem on_pure (a : α) : (pure a : Parser α).on src c = .ok (a, c) :=
  rfl

@[simp] theorem on_throw (e : ParseError) : (throw e : Parser α).on src c = .error e :=
  rfl

@[simp] theorem on_get : (get : Parser Cursor).on src c = .ok (c, c) :=
  rfl

@[simp] theorem on_read : (read : Parser Source).on src c = .ok (src, c) :=
  rfl

@[simp] theorem on_modify (f : Cursor → Cursor) :
    (modify f : Parser PUnit).on src c = .ok (⟨⟩, f c) :=
  rfl

@[simp] theorem on_liftExcept (r : Except ParseError α) :
    (liftM r : Parser α).on src c = r.map fun a => (a, c) := by
  cases r <;> rfl

theorem on_ite (condition : Prop) [Decidable condition] (p q : Parser α) :
    (if condition then p else q).on src c = if condition then p.on src c else q.on src c := by
  split <;> rfl

theorem on_bind (p : Parser α) (f : α → Parser β) :
    (p >>= f).on src c = (p.on src c).bind fun r => (f r.1).on src r.2 := by
  change (ReaderT.run (p >>= f) src).run c = _
  simp only [ReaderT.run_bind, StateT.run_bind, on]
  rfl

theorem on_bind_eq_ok {p : Parser α} {f : α → Parser β} {b : β} :
    (p >>= f).on src c = .ok (b, c') ↔
      ∃ a mid, p.on src c = .ok (a, mid) ∧ (f a).on src mid = .ok (b, c') := by
  rw [on_bind]
  cases p.on src c with
  | error e => simp [Except.bind]
  | ok r =>
    obtain ⟨a, mid⟩ := r
    constructor
    · intro found
      exact ⟨a, mid, rfl, found⟩
    · rintro ⟨_, _, same, found⟩
      cases same
      exact found

theorem on_bind_of_ok {p : Parser α} {f : α → Parser β} {a : α}
    (first : p.on src c = .ok (a, c')) : (p >>= f).on src c = (f a).on src c' := by
  rw [on_bind, first]
  rfl

end Steps

section Primitives

variable {src : Source} {c : Cursor}

@[simp] theorem on_upcoming (n : Nat) :
    (upcoming n).on src c = .ok ((c.rest.take n).map (·.token), c) :=
  rfl

@[simp] theorem on_peek : peek.on src c = .ok (c.rest.head?.map (·.token), c) :=
  rfl

@[simp] theorem on_nextStart :
    nextStart.on src c = .ok ((c.rest.head?.map (·.start)).getD src.stop, c) := by
  rcases c with ⟨_ | ⟨t, rest⟩, last, floor, classes⟩ <;> rfl

@[simp] theorem on_atEnd : atEnd.on src c = .ok (c.rest.isEmpty, c) :=
  rfl

theorem on_expectMore :
    expectMore.on src c =
      if c.rest = [] then .error (.unexpectedEnd src.stop) else .ok (⟨⟩, c) := by
  rcases c with ⟨_ | ⟨t, rest⟩, last, floor, classes⟩ <;> rfl

@[simp] theorem on_moveTo (last : Nat) (rest : List Located) :
    (moveTo last rest).on src c = .ok (⟨⟩, { c with rest := rest, lastStop := last }) :=
  rfl

@[simp] theorem on_advance : advance.on src c = .ok (⟨⟩, c.next) := by
  rcases c with ⟨_ | ⟨t, rest⟩, last, floor, classes⟩ <;> rfl

@[simp] theorem on_spanFrom (start : Nat) :
    (spanFrom start).on src c = .ok (⟨start, max c.lastStop start⟩, c) :=
  rfl

@[simp] theorem on_raiseDocFloor (offset : Nat) :
    (raiseDocFloor offset).on src c = .ok (⟨⟩, { c with docFloor := offset }) :=
  rfl

theorem closeDocs_eq {c' : Cursor} (run : closeDocs.on src c = .ok (⟨⟩, c')) :
    c' = { c with docFloor := c.lastStop } := by
  rw [closeDocs, on_bind_of_ok on_get, on_raiseDocFloor] at run
  cases run
  rfl

@[simp] theorem on_sees (s : Symbol) :
    (sees s).on src c = .ok (c.rest.head?.map (·.token) == some (.symbol s), c) :=
  rfl

theorem on_acceptToken (t : Token) :
    (acceptToken t).on src c =
      if c.rest.head?.map (·.token) = some t then .ok (true, c.next) else .ok (false, c) := by
  simp only [acceptToken, on_bind, on_peek, Except.bind, on_ite, beq_iff_eq, on_advance, on_pure]

theorem on_accept (s : Symbol) :
    (accept s).on src c =
      if c.rest.head?.map (·.token) = some (.symbol s) then .ok (true, c.next)
      else .ok (false, c) :=
  on_acceptToken _

theorem on_acceptKeyword (word : Keyword) :
    (acceptKeyword word).on src c =
      if c.rest.head?.map (·.token) = some (.keyword word) then .ok (true, c.next)
      else .ok (false, c) :=
  on_acceptToken _

/-- The error of finding something else at the cursor. -/
def mismatchAt (src : Source) (c : Cursor) (expected : Expected) : ParseError :=
  match c.rest with
  | t :: _ => .unexpected t.start expected (some t.token)
  | [] => .unexpectedEnd src.stop

@[simp] theorem on_mismatch (expected : Expected) :
    (mismatch expected).on src c = .ok (mismatchAt src c expected, c) := by
  rcases c with ⟨_ | ⟨t, rest⟩, last, floor, classes⟩ <;> rfl

theorem on_expect (s : Symbol) :
    (expect s).on src c =
      if c.rest.head?.map (·.token) = some (.symbol s) then .ok (⟨⟩, c.next)
      else .error (mismatchAt src c (.symbol s)) := by
  simp only [expect, on_bind, on_accept]
  split
  · rfl
  · simp only [Except.bind, Bool.false_eq_true, ↓reduceIte, on_bind, on_mismatch, on_throw]

theorem on_expectKeyword (word : Keyword) :
    (expectKeyword word).on src c =
      if c.rest.head?.map (·.token) = some (.keyword word) then .ok (⟨⟩, c.next)
      else .error (mismatchAt src c (.keyword word)) := by
  simp only [expectKeyword, on_bind, on_acceptKeyword]
  split
  · rfl
  · simp only [Except.bind, Bool.false_eq_true, ↓reduceIte, on_bind, on_mismatch, on_throw]

theorem on_identifier :
    identifier.on src c =
      match c.rest.head?.map (·.token) with
      | some (.name text) => .ok (text, c.next)
      | some (.keyword .recordWord) => .ok (Keyword.recordWord.text, c.next)
      | _ => .error (mismatchAt src c .identifier) := by
  rcases c with ⟨_ | ⟨⟨t, start, stop⟩, rest⟩, last, floor, classes⟩
  · rfl
  · cases t with
    | keyword word => cases word <;> rfl
    | _ => rfl

theorem on_cut (start stop : Nat) :
    (cut start stop).on src c =
      match slice? src.text start (max stop start) with
      | some cs => .ok (String.ofList (Text.trim cs), c)
      | none => .error .fault := by
  simp only [cut, on_bind, on_read, Except.bind]
  cases slice? src.text start (max stop start) <;> rfl

/-- The documentation a declaration takes that begins at an offset. -/
def docAt (src : Source) (c : Cursor) (offset : Nat) : Option String :=
  (src.docs.reverse.find? fun d => decide (d.stop ≤ offset) && decide (c.docFloor ≤ d.start)).map
    (·.token.text)

@[simp] theorem on_docBefore (offset : Nat) :
    (docBefore offset).on src c = .ok (docAt src c offset, c) :=
  rfl

theorem docAt_zero (docs : ∀ d ∈ src.docs, 0 < d.stop) : docAt src c 0 = none := by
  rw [docAt, Option.map_eq_none_iff, List.find?_eq_none]
  intro d member
  have behind := docs d (List.mem_reverse.mp member)
  simp only [Bool.and_eq_true, decide_eq_true_eq, not_and]
  omega

theorem on_endDeclaration :
    endDeclaration.on src c =
      match src.dialect with
      | .java => (expect .semicolon).on src c
      | .groovy =>
          .ok (⟨⟩, if c.rest.head?.map (·.token) = some (.symbol .semicolon) then c.next else c) := by
  simp only [endDeclaration, on_bind, on_read, Except.bind]
  cases src.dialect with
  | java => rfl
  | groovy =>
    simp only [on_bind, on_accept, on_pure]
    split <;> rfl

@[simp] theorem on_resume (passed : Source.Passed) :
    (resume passed).on src c =
      .ok (⟨⟩, { c with rest := passed.2, lastStop := passed.1.getD c.lastStop }) :=
  rfl

end Primitives

section Loops

variable {α : Type} {step : Parser (Option α)} {src : Source}

/-- The answers of a step made over and over, until it has none. Each consumes a token. -/
inductive Steps (step : Parser (Option α)) (src : Source) : Cursor → List α → Cursor → Prop
  | done {c c' : Cursor} (last : step.on src c = .ok (none, c')) : Steps step src c [] c'
  | more {c mid c' : Cursor} {a : α} {as : List α} (first : step.on src c = .ok (some a, mid))
      (shorter : mid.rest.length < c.rest.length) (others : Steps step src mid as c') :
      Steps step src c (a :: as) c'

theorem on_repeatWithin_of_steps {c c' : Cursor} {as : List α} {bound : Nat}
    (steps : Steps step src c as c') (enough : c.rest.length < bound) :
    (repeatWithin step bound).on src c = .ok (as, c') := by
  induction steps generalizing bound with
  | done last =>
    cases bound with
    | zero => omega
    | succ bound => rw [repeatWithin, on_bind_of_ok last, on_pure]
  | more first shorter _ ih =>
    cases bound with
    | zero => omega
    | succ bound =>
      have rest := @ih bound (by omega)
      rw [repeatWithin, on_bind_of_ok first]
      simp only [on_bind, rest, Except.bind, on_pure]

/-- The answers of a step made several times. -/
inductive Chain (step : Parser (Option α)) (src : Source) : Cursor → List α → Cursor → Prop
  | nil {c : Cursor} : Chain step src c [] c
  | cons {c mid c' : Cursor} {a : α} {as : List α} (first : step.on src c = .ok (some a, mid))
      (shorter : mid.rest.length < c.rest.length) (others : Chain step src mid as c') :
      Chain step src c (a :: as) c'

theorem Chain.snoc {c mid c' : Cursor} {as : List α} {a : α} (chain : Chain step src c as mid)
    (last : step.on src mid = .ok (some a, c')) (shorter : c'.rest.length < mid.rest.length) :
    Chain step src c (as ++ [a]) c' := by
  induction chain with
  | nil => exact .cons last shorter .nil
  | cons first less _ ih => exact .cons first less (ih last shorter)

/-- Each step has one answer, so steps that are made several times are the first of all steps. -/
theorem Chain.exists_steps {c mid c' : Cursor} {as cs : List α} (chain : Chain step src c as mid)
    (steps : Steps step src c cs c') : ∃ bs, cs = as ++ bs ∧ Steps step src mid bs c' := by
  induction chain generalizing cs with
  | nil => exact ⟨cs, rfl, steps⟩
  | cons first _ _ ih =>
    cases steps with
    | done last => cases first.symm.trans last
    | more other _ others =>
      cases first.symm.trans other
      obtain ⟨bs, rfl, behind⟩ := ih others
      exact ⟨bs, rfl, behind⟩

theorem Steps.exists_chain {c c' : Cursor} {as bs : List α}
    (steps : Steps step src c (as ++ bs) c') : ∃ mid, Chain step src c as mid ∧ Steps step src mid bs c' := by
  induction as generalizing c with
  | nil => exact ⟨c, .nil, steps⟩
  | cons a as ih =>
    cases steps with
    | more first shorter others =>
      obtain ⟨mid, chain, behind⟩ := ih others
      exact ⟨mid, .cons first shorter chain, behind⟩

theorem on_many_of_steps {c c' : Cursor} {as : List α} (steps : Steps step src c as c') :
    (many step).on src c = .ok (as, c') := by
  rw [many, on_bind_of_ok on_get]
  exact on_repeatWithin_of_steps steps (Nat.lt_succ_self _)

end Loops

end Parser

end CreatorSynth
