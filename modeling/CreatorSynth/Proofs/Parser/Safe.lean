import CreatorSynth.Proofs.Parser.Termination
import CreatorSynth.Proofs.Text.Boundary

/-! Parsers fail at tokens only. Where the tokens ahead stand in the source, every text a parser
cuts out of it lies between characters, no loop runs into its bound, and an error points at the
start of a token or at the end of the last one. -/
namespace CreatorSynth
open Text Located

/-- The tokens of a source stand in its text in order. -/
class Source.Holds (src : Source) (tokens : List Located) : Prop where
  order : InOrder tokens
  stands : ∀ t ∈ tokens, t.StandsIn src.text
  stop : src.stop = (tokens.getLast?.map (·.stop)).getD 0

theorem Source.Holds.ahead {src : Source} {tokens : List Located} (holds : src.Holds tokens)
    {c : Cursor} (inside : c.rest <:+ tokens) : ∀ t ∈ c.rest, t.StandsIn src.text :=
  fun t member => holds.stands t (inside.mem member)

/-- The error is no fault, and points at the start of a token, at the end of the last one, or at the
start of the text. -/
structure ParseError.AtToken (tokens : List Located) (e : ParseError) : Prop where
  sound : e ≠ .fault
  pos : e.pos = 0 ∨ (∃ t ∈ tokens, e.pos = t.start) ∨
    tokens.getLast?.map (·.stop) = some e.pos

namespace Located.StandsIn

variable {text : List Char} {t : Located}

theorem boundary_start (stands : t.StandsIn text) : Boundary text t.start :=
  (boundaries_of_slice? stands.slice).1

theorem boundary_stop (stands : t.StandsIn text) : Boundary text t.stop :=
  (boundaries_of_slice? stands.slice).2

theorem stop_of_symbol {s : Symbol} (stands : t.StandsIn text) (same : t.token = .symbol s)
    (short : byteLength s.text.toList = 1) : t.stop = t.start + 1 := by
  rw [stands.stop, same, Token.text, short]

end Located.StandsIn

namespace Parser

/-- The parser fails at tokens only, wherever it stands among those of the source. -/
class Safe {α : Type} (src : Source) (tokens : List Located) (p : Parser α) : Prop where
  atToken : ∀ {c e}, c.rest <:+ tokens → p.on src c = .error e → e.AtToken tokens

theorem on_bind_eq_error {α β : Type} {p : Parser α} {f : α → Parser β} {src : Source} {c : Cursor}
    {e : ParseError} : (p >>= f).on src c = .error e ↔
      p.on src c = .error e ∨ ∃ a mid, p.on src c = .ok (a, mid) ∧ (f a).on src mid = .error e := by
  rw [on_bind]
  cases p.on src c with
  | error e' => simp [Except.bind]
  | ok found =>
    obtain ⟨a, mid⟩ := found
    constructor
    · intro failed
      exact .inr ⟨a, mid, rfl, failed⟩
    · rintro (⟨⟨⟩⟩ | ⟨_, _, same, failed⟩)
      cases same
      exact failed

theorem Onward.suffix {α : Type} {p : Parser α} [Onward p] {src : Source} {c c' : Cursor} {a : α}
    {tokens : List Located} (inside : c.rest <:+ tokens) (run : p.on src c = .ok (a, c')) :
    c'.rest <:+ tokens := by
  obtain ⟨taken, moves⟩ := Onward.onward run
  have behind : c'.rest <:+ c.rest := ⟨taken, moves.rest.symm⟩
  exact behind.trans inside

section Rules

variable {α β : Type} {src : Source} {tokens : List Located} {p q : Parser α} {f : α → Parser β}

theorem Safe.of_sure (sure : ∀ c, ∃ found, p.on src c = .ok found) : Safe src tokens p where
  atToken {c e} _ failed := by
    obtain ⟨found, run⟩ := sure c
    rw [run] at failed
    cases failed

/-- Two steps are safe if the second is behind whatever the first one has read. -/
theorem Safe.bind_of [first : Safe src tokens p]
    (second : ∀ {c a mid}, c.rest <:+ tokens → p.on src c = .ok (a, mid) →
      ∀ {e}, (f a).on src mid = .error e → e.AtToken tokens) : Safe src tokens (p >>= f) where
  atToken inside failed := by
    rcases on_bind_eq_error.mp failed with failed | ⟨a, mid, run, failed⟩
    · exact first.atToken inside failed
    · exact second inside run failed

instance Safe.bind [Onward p] [Safe src tokens p] [second : ∀ a, Safe src tokens (f a)] :
    Safe src tokens (p >>= f) :=
  .bind_of fun inside run => (second _).atToken (Onward.suffix inside run)

instance Safe.ite {condition : Prop} [Decidable condition] [Safe src tokens p]
    [Safe src tokens q] : Safe src tokens (if condition then p else q) := by
  split <;> assumption

instance Safe.pure (a : α) : Safe src tokens (Pure.pure a : Parser α) :=
  .of_sure fun _ => ⟨_, rfl⟩

instance : Safe src tokens (get : Parser Cursor) :=
  .of_sure fun _ => ⟨_, rfl⟩

instance : Safe src tokens (read : Parser Source) :=
  .of_sure fun _ => ⟨_, rfl⟩

theorem Safe.throw {e : ParseError} (placed : e.AtToken tokens) :
    Safe src tokens (MonadExcept.throw e : Parser α) where
  atToken _ failed := by
    cases failed
    exact placed

theorem unexpectedEnd_atToken [holds : src.Holds tokens] :
    (ParseError.unexpectedEnd src.stop).AtToken tokens where
  sound := nofun
  pos := by
    rw [ParseError.pos, holds.stop]
    cases tokens.getLast? with
    | none => exact .inl rfl
    | some t => exact .inr (.inr rfl)

/-- What calls itself behind tokens is safe if what it does between the calls is, where what is
kept by that is known of the calls. -/
theorem Safe.of_recursion_keeping {ι : Type} {F : (ι → Parser α) → ι → Parser α}
    {R : ι → Parser α} {Q : Parser α → Prop} [src.Holds tokens] (recursion : Recursion F R)
    (fails : ∀ e, Q (MonadExcept.throw e))
    (keeps : ∀ {p}, (∀ i, Onward (p i)) → (∀ i, Q (p i)) → ∀ i, Q (F p i))
    (each : ∀ {p}, (∀ i, Onward (p i)) → (∀ i, Q (p i)) → (∀ i, Safe src tokens (p i)) →
      ∀ i, Safe src tokens (F p i)) (i : ι) : Safe src tokens (R i) where
  atToken {c e} inside failed := by
    have onward (i : ι) : Onward (MonadExcept.throw (.unexpectedEnd src.stop) : Parser α) :=
      .throw _
    have deep (depth : Nat) :
        let p := unrolled F (fun _ => MonadExcept.throw (.unexpectedEnd src.stop)) depth
        (∀ i, Q (p i)) ∧ ∀ i, Safe src tokens (p i) := by
      induction depth with
      | zero => exact ⟨fun _ => fails _, fun _ => .throw unexpectedEnd_atToken⟩
      | succ depth ih =>
        have further := recursion.descends.onward_unrolled onward depth
        exact ⟨keeps further ih.1, each further ih.1 ih.2⟩
    have same := recursion.on_unrolled onward (c.rest.length + 1) i
    rw [same.on_eq (Nat.lt_succ_self _)] at failed
    exact ((deep _).2 i).atToken inside failed

theorem Safe.of_recursion {ι : Type} {F : (ι → Parser α) → ι → Parser α} {R : ι → Parser α}
    [src.Holds tokens] (recursion : Recursion F R)
    (each : ∀ {p}, (∀ i, Onward (p i)) → (∀ i, Safe src tokens (p i)) →
      ∀ i, Safe src tokens (F p i)) (i : ι) : Safe src tokens (R i) :=
  of_recursion_keeping (Q := fun _ => True) recursion (fun _ => trivial) (fun _ _ _ => trivial)
    (fun onward _ => each onward) i

end Rules

section Primitives

variable {src : Source} {tokens : List Located}

instance (n : Nat) : Safe src tokens (upcoming n) :=
  .of_sure fun _ => ⟨_, on_upcoming n⟩

instance : Safe src tokens peek :=
  .of_sure fun _ => ⟨_, on_peek⟩

instance : Safe src tokens nextStart :=
  .of_sure fun _ => ⟨_, on_nextStart⟩

instance : Safe src tokens lastStop :=
  .of_sure fun _ => ⟨_, rfl⟩

instance (start : Nat) : Safe src tokens (spanFrom start) :=
  .of_sure fun _ => ⟨_, on_spanFrom start⟩

instance (offset : Nat) : Safe src tokens (docBefore offset) :=
  .of_sure fun _ => ⟨_, on_docBefore offset⟩

instance (offset : Nat) : Safe src tokens (raiseDocFloor offset) :=
  .of_sure fun _ => ⟨_, on_raiseDocFloor offset⟩

instance : Safe src tokens closeDocs :=
  .of_sure fun _ => ⟨_, rfl⟩

instance : Safe src tokens atEnd :=
  .of_sure fun _ => ⟨_, on_atEnd⟩

instance (s : Symbol) : Safe src tokens (sees s) :=
  .of_sure fun _ => ⟨_, on_sees s⟩

instance : Safe src tokens advance :=
  .of_sure fun _ => ⟨_, on_advance⟩

instance (decl : ClassDecl) : Safe src tokens (addClass decl) :=
  .of_sure fun _ => ⟨_, rfl⟩

instance (t : Token) : Safe src tokens (acceptToken t) := by
  unfold acceptToken
  infer_instance

instance (s : Symbol) : Safe src tokens (accept s) :=
  inferInstanceAs (Safe src tokens (acceptToken _))

instance (word : Keyword) : Safe src tokens (acceptKeyword word) :=
  inferInstanceAs (Safe src tokens (acceptToken _))

instance (word : String) : Safe src tokens (acceptWord word) :=
  inferInstanceAs (Safe src tokens (acceptToken _))

variable [holds : src.Holds tokens]

theorem unexpected_atToken {c : Cursor} (inside : c.rest <:+ tokens) (expected : Expected)
    (found : Option Token) :
    (ParseError.unexpected ((c.rest.head?.map (·.start)).getD src.stop) expected found).AtToken
      tokens := by
  cases head : c.rest.head? with
  | none => exact ⟨nofun, unexpectedEnd_atToken.pos⟩
  | some t => exact ⟨nofun, .inr (.inl ⟨t, inside.mem (List.mem_of_head? head), rfl⟩)⟩

theorem mismatchAt_atToken {c : Cursor} (inside : c.rest <:+ tokens) (expected : Expected) :
    (mismatchAt src c expected).AtToken tokens := by
  unfold mismatchAt
  split
  · rename_i t rest head
    have placed := @unexpected_atToken src tokens _ c inside expected (some t.token)
    rwa [head] at placed
  · exact unexpectedEnd_atToken

instance (s : Symbol) : Safe src tokens (expect s) where
  atToken inside failed := by
    rw [on_expect] at failed
    split at failed <;> cases failed
    exact mismatchAt_atToken inside _

instance (word : Keyword) : Safe src tokens (expectKeyword word) where
  atToken inside failed := by
    rw [on_expectKeyword] at failed
    split at failed <;> cases failed
    exact mismatchAt_atToken inside _

instance : Safe src tokens identifier where
  atToken inside failed := by
    rw [on_identifier] at failed
    split at failed <;> cases failed
    exact mismatchAt_atToken inside _

instance : Safe src tokens expectMore where
  atToken _ failed := by
    rw [on_expectMore] at failed
    split at failed <;> cases failed
    exact unexpectedEnd_atToken

instance : Safe src tokens endDeclaration := by
  unfold endDeclaration
  refine @Safe.bind _ _ _ _ _ _ _ _ fun source => ?_
  split <;> infer_instance

end Primitives

section Loops

variable {α : Type} {src : Source} {tokens : List Located} [src.Holds tokens]

instance Safe.many (step : Parser (Option α)) [Onward step] [Paced step] [Safe src tokens step] :
    Safe src tokens (many step) := by
  refine Safe.of_recursion (recursion_many step) (fun {p} onward safe _ => ?_) ()
  have := onward ()
  have := safe ()
  refine @Safe.bind _ _ _ _ _ _ _ _ fun found => ?_
  split <;> infer_instance

instance Safe.separated (s : Symbol) (item : Parser α) [Onward item] [Safe src tokens item] :
    Safe src tokens (separated s item) := by
  unfold Parser.separated
  infer_instance

end Loops

section Cuts

variable {src : Source} {tokens : List Located} {start stop : Nat}

theorem on_cut_eq_fault_iff {c : Cursor} : (cut start stop).on src c = .error .fault ↔
    ¬ (Boundary src.text start ∧ Boundary src.text (max stop start)) := by
  rw [on_cut]
  cases found : slice? src.text start (max stop start) with
  | none =>
    rw [slice?_eq_none_iff] at found
    simpa [Nat.le_max_right] using found
  | some cs => simpa using boundaries_of_slice? found

theorem on_cut_of_boundary {c : Cursor} (first : Boundary src.text start)
    (last : Boundary src.text stop) : ∃ text, (cut start stop).on src c = .ok (text, c) := by
  obtain ⟨cs, found⟩ := exists_slice? (Nat.le_max_right stop start) first (last.max first)
  exact ⟨_, by rw [on_cut, found]⟩

theorem breaksBetween_eq_fault_iff : src.breaksBetween stop start = .error .fault ↔
    src.dialect = .groovy ∧ ¬ (Boundary src.text (min stop start) ∧ Boundary src.text start) := by
  unfold Source.breaksBetween
  cases src.dialect with
  | java => simp
  | groovy =>
    cases found : slice? src.text (min stop start) start with
    | none =>
      rw [slice?_eq_none_iff] at found
      simpa [Nat.min_le_right] using found
    | some gap => simpa using boundaries_of_slice? found

theorem breaksAfter_of_boundary {passed : Option Nat}
    (known : ∀ stop, passed = some stop → Boundary src.text stop)
    (next : Boundary src.text start) : ∃ broken, src.breaksAfter passed start = .ok broken := by
  cases passed with
  | none => exact ⟨_, rfl⟩
  | some stop =>
    unfold Source.breaksAfter Source.breaksBetween
    cases src.dialect with
    | java => exact ⟨_, rfl⟩
    | groovy =>
      have last := known stop rfl
      obtain ⟨gap, found⟩ := exists_slice? (Nat.min_le_right stop start) (last.min next) next
      exact ⟨gap.contains '\n', by simp only [found]⟩

end Cuts

section Raw

variable {src : Source} {tokens ts : List Located} {depth : Nat} {passed : Option Nat}
  {e : ParseError}

theorem known_of_stands {t : Located} (stands : t.StandsIn src.text) :
    ∀ stop, some t.stop = some stop → Boundary src.text stop := by
  rintro _ ⟨⟩
  exact stands.boundary_stop

theorem passExpression_error (stands : ∀ t ∈ ts, t.StandsIn src.text)
    (known : ∀ stop, passed = some stop → Boundary src.text stop)
    (failed : src.passExpression depth passed ts = .error e) : e = .unexpectedEnd src.stop := by
  induction ts generalizing depth passed with
  | nil =>
    cases failed
    rfl
  | cons t ts ih =>
    have first := stands t List.mem_cons_self
    have others {depth : Nat} (failed : src.passExpression depth (some t.stop) ts =
        .error e) : e = .unexpectedEnd src.stop :=
      ih (fun u member => stands u (List.mem_cons_of_mem _ member)) (known_of_stands first) failed
    obtain ⟨broken, test⟩ := breaksAfter_of_boundary known first.boundary_start
    simp only [Source.passExpression, test, bind, Except.bind, pure, Except.pure] at failed
    split at failed
    · split at failed
      · cases failed
      · split at failed
        · cases failed
        · exact others failed
    · exact others failed

theorem passInitializer_error {angles : Nat} {previous : Option Token}
    (stands : ∀ t ∈ ts, t.StandsIn src.text)
    (known : ∀ stop, passed = some stop → Boundary src.text stop)
    (failed : src.passInitializer depth angles previous passed ts = .error e) :
    e = .unexpectedEnd src.stop := by
  induction ts generalizing depth angles previous passed with
  | nil =>
    cases failed
    rfl
  | cons t ts ih =>
    have first := stands t List.mem_cons_self
    have others {depth angles : Nat} {previous : Option Token}
        (failed : src.passInitializer depth angles previous (some t.stop) ts =
        .error e) : e = .unexpectedEnd src.stop :=
      ih (fun u member => stands u (List.mem_cons_of_mem _ member)) (known_of_stands first) failed
    obtain ⟨broken, test⟩ := breaksAfter_of_boundary known first.boundary_start
    simp only [Source.passInitializer, test, bind, Except.bind, pure, Except.pure] at failed
    split at failed
    · split at failed
      · cases failed
      · split at failed
        · cases failed
        · exact others failed
    · exact others failed

theorem passStatement_error (stands : ∀ t ∈ ts, t.StandsIn src.text)
    (known : ∀ stop, passed = some stop → Boundary src.text stop)
    (failed : src.passStatement depth passed ts = .error e) : e = .unexpectedEnd src.stop := by
  induction ts generalizing depth passed with
  | nil =>
    cases failed
    rfl
  | cons t ts ih =>
    have first := stands t List.mem_cons_self
    have others {depth : Nat} (failed : src.passStatement depth (some t.stop) ts =
        .error e) : e = .unexpectedEnd src.stop :=
      ih (fun u member => stands u (List.mem_cons_of_mem _ member)) (known_of_stands first) failed
    obtain ⟨broken, test⟩ := breaksAfter_of_boundary known first.boundary_start
    have taken : (if t.token.nest depth = 0 ∧ t.token = .symbol .rbrace ∧
        (!Token.continuesBlock (ts.head?.map (·.token))) = true then
        Except.ok (some t.stop, some t.stop, ts)
      else src.passStatement (t.token.nest depth) (some t.stop) ts) = .error e →
        e = .unexpectedEnd src.stop := by
      intro failed
      split at failed
      · cases failed
      · exact others failed
    simp only [Source.passStatement, test, bind, Except.bind, pure, Except.pure] at failed
    split at failed
    · split at failed
      · cases failed
      · split at failed
        · cases failed
        · split at failed
          · cases failed
          · exact taken failed
    · exact taken failed

theorem passStatement_known {found : Option Nat × Source.Passed}
    (stands : ∀ t ∈ ts, t.StandsIn src.text)
    (known : ∀ stop, passed = some stop → Boundary src.text stop)
    (run : src.passStatement depth passed ts = .ok found) :
    ∀ stop, found.1 = some stop → Boundary src.text stop := by
  induction ts generalizing depth passed with
  | nil => cases run
  | cons t ts ih =>
    have first := known_of_stands (stands t List.mem_cons_self)
    have taken : (if t.token.nest depth = 0 ∧ t.token = .symbol .rbrace ∧
        (!Token.continuesBlock (ts.head?.map (·.token))) = true then
        Except.ok (some t.stop, some t.stop, ts)
      else src.passStatement (t.token.nest depth) (some t.stop) ts) = .ok found →
        ∀ stop, found.1 = some stop → Boundary src.text stop := by
      intro run
      split at run
      · cases run
        exact first
      · exact ih (fun u member => stands u (List.mem_cons_of_mem _ member)) first run
    simp only [Source.passStatement, bind, Except.bind, pure, Except.pure] at run
    split at run
    · split at run
      · cases run
        exact known
      · split at run
        · cases run
          exact known
        · split at run
          · cases run
          · split at run
            · cases run
              exact known
            · exact taken run
    · exact taken run

theorem Passes.known {found : Source.Passed} (stands : ∀ t ∈ ts, t.StandsIn src.text)
    (passes : Passes ts none found) : ∀ stop, found.1 = some stop → Boundary src.text stop := by
  obtain ⟨taken, whole, ends⟩ := passes
  intro stop same
  rw [same, Option.or_none] at ends
  obtain ⟨t, last, rfl⟩ := Option.map_eq_some_iff.mp ends.symm
  have member : t ∈ ts := by
    rw [whole]
    exact List.mem_append_left _ (List.mem_of_getLast? last)
  exact (stands t member).boundary_stop

variable [holds : src.Holds tokens]

theorem boundary_nextStart {c : Cursor} (inside : c.rest <:+ tokens) :
    Boundary src.text ((c.rest.head?.map (·.start)).getD src.stop) := by
  cases head : c.rest.head? with
  | some t => exact (holds.ahead inside t (List.mem_of_head? head)).boundary_start
  | none =>
    rw [holds.stop]
    cases last : tokens.getLast? with
    | none => exact boundary_zero _
    | some t => exact (holds.stands t (List.mem_of_getLast? last)).boundary_stop

theorem Safe.of_passing {α : Type} {f : Source → Cursor → Except ParseError α}
    {g : α → Source.Passed} {k : α → Option Nat}
    (ended : ∀ {c e}, c.rest <:+ tokens → f src c = .error e → e = .unexpectedEnd src.stop)
    (known : ∀ {c a}, c.rest <:+ tokens → f src c = .ok a →
      ∀ offset, k a = some offset → Boundary src.text offset) :
    Safe src tokens (do
      let start ← nextStart
      let src ← read
      let c ← get
      let a ← liftM (f src c)
      resume (g a)
      cut start ((k a).getD start)) where
  atToken {c e} inside failed := by
    rw [on_bind_of_ok on_nextStart, on_bind_of_ok on_read, on_bind_of_ok on_get] at failed
    rcases on_bind_eq_error.mp failed with failed | ⟨a, mid, passes, failed⟩
    · rw [on_liftExcept] at failed
      cases run : f src c with
      | ok a =>
        rw [run] at failed
        cases failed
      | error e =>
        rw [run] at failed
        cases failed
        rw [ended inside run]
        exact unexpectedEnd_atToken
    · have run : f src c = .ok a := by
        rw [on_liftExcept] at passes
        cases run : f src c <;> rw [run] at passes <;> cases passes
        rfl
      rw [on_bind_of_ok (on_resume _)] at failed
      have first : Boundary src.text ((c.rest.head?.map (·.start)).getD src.stop) :=
        boundary_nextStart inside
      have last : Boundary src.text ((k a).getD ((c.rest.head?.map (·.start)).getD src.stop)) := by
        cases offset : k a with
        | none => exact first
        | some offset' => exact known inside run _ offset
      obtain ⟨text, done⟩ := on_cut_of_boundary first last
      rw [done] at failed
      cases failed

instance : Safe src tokens expression :=
  .of_passing (g := id) (k := Prod.fst)
    (fun inside => passExpression_error (holds.ahead inside) nofun)
    fun inside run => (passExpression_passes run).known (holds.ahead inside)

instance : Safe src tokens initializer :=
  .of_passing (g := id) (k := Prod.fst)
    (fun inside => passInitializer_error (holds.ahead inside) nofun)
    fun inside run => (passInitializer_passes run).known (holds.ahead inside)

instance : Safe src tokens rawStatement :=
  .of_passing (g := Prod.snd) (k := Prod.fst)
    (fun inside => passStatement_error (holds.ahead inside) nofun)
    fun inside run => passStatement_known (holds.ahead inside) (by nofun) run

instance (opening closing : Symbol) : Safe src tokens (group opening closing) where
  atToken inside failed := by
    rw [on_group] at failed
    split at failed
    · split at failed
      · cases failed
        exact unexpectedEnd_atToken
      · cases failed
    · cases failed
      exact mismatchAt_atToken inside _

theorem group_parens {c c' : Cursor} {span : Span} (inside : c.rest <:+ tokens)
    (run : (group .lparen .rparen).on src c = .ok (span, c')) :
    span.start + 2 ≤ span.stop ∧ Boundary src.text (span.start + 1) ∧
      Boundary src.text (span.stop - 1) := by
  rw [on_group] at run
  split at run
  · rename_i head
    obtain ⟨first, opens, moves⟩ := Cursor.Moves.next_of_head head
    have begins : c.rest.head? = some first := by rw [moves.rest]; rfl
    split at run
    · cases run
    · rename_i last rest found
      cases run
      obtain ⟨taken, whole, ends, closes⟩ := closeGroup_taken found
      have behind : last ∈ c.next.rest := by
        rw [whole]
        exact List.mem_append_left _ (List.mem_of_getLast? ends)
      have member : last ∈ c.rest := by
        rw [moves.rest]
        exact List.mem_append_right _ behind
      have order : InOrder c.rest := holds.order.sublist inside.sublist
      rw [moves.rest] at order
      have before : first.stop ≤ last.start := List.rel_of_pairwise_cons order behind
      have stands := holds.ahead inside
      have open' := stands first (List.mem_of_head? begins)
      have close := stands last member
      have open_stop := open'.stop_of_symbol opens rfl
      have close_stop := close.stop_of_symbol closes rfl
      have span_stop : max last.stop first.start - 1 = last.start := by omega
      rw [begins]
      simp only [Option.map_some, Option.getD_some, span_stop]
      refine ⟨by omega, ?_, close.boundary_start⟩
      rw [← open_stop]
      exact open'.boundary_stop
  · cases run

instance : Safe src tokens (groupText .lparen .rparen) :=
  .bind_of fun inside run e failed => by
    obtain ⟨_, first, last⟩ := group_parens inside run
    obtain ⟨text, done⟩ := on_cut_of_boundary first last
    rw [done] at failed
    cases failed

instance : Safe src tokens argumentText? := by
  unfold argumentText?
  infer_instance

omit holds in
theorem callArguments_boundary {start : Nat} {bounds : List (Nat × Nat)} {last : Located}
    {rest : List Located} (stands : ∀ t ∈ ts, t.StandsIn src.text)
    (first : Boundary src.text start)
    (found : callArguments depth start ts = some (bounds, last, rest)) :
    ∀ bound ∈ bounds, Boundary src.text bound.1 ∧ Boundary src.text bound.2 := by
  induction ts generalizing depth start bounds with
  | nil => cases found
  | cons t ts ih =>
    have here := stands t List.mem_cons_self
    have others := fun u member => stands u (List.mem_cons_of_mem t member)
    simp only [callArguments] at found
    split at found
    · cases found
      intro bound member
      cases List.mem_singleton.mp member
      exact ⟨first, here.boundary_start⟩
    · split at found
      · obtain ⟨⟨more, closing, behind⟩, inner, same⟩ := Option.map_eq_some_iff.mp found
        cases same
        intro bound member
        cases member with
        | head => exact ⟨first, here.boundary_start⟩
        | tail _ member => exact ih others here.boundary_stop inner bound member
      · exact ih others first found

omit holds in
theorem on_mapM_cut_of_boundary {bounds : List (Nat × Nat)} {c : Cursor}
    (between : ∀ bound ∈ bounds, Boundary src.text bound.1 ∧ Boundary src.text bound.2) :
    ∃ texts, (bounds.mapM fun bound => cut bound.1 bound.2).on src c = .ok (texts, c) := by
  induction bounds with
  | nil => exact ⟨_, rfl⟩
  | cons bound bounds ih =>
    obtain ⟨first, last⟩ := between bound List.mem_cons_self
    obtain ⟨text, done⟩ := on_cut_of_boundary first last
    obtain ⟨texts, others⟩ := ih fun bound member => between bound (List.mem_cons_of_mem _ member)
    exact ⟨text :: texts, by
      rw [List.mapM_cons, on_bind_of_ok done, on_bind_of_ok others, on_pure]⟩

instance : Safe src tokens callArgs where
  atToken {c e} inside failed := by
    rw [on_callArgs] at failed
    split at failed
    · rename_i head
      obtain ⟨first, opens, moves⟩ := Cursor.Moves.next_of_head head
      have begins : c.rest.head? = some first := by rw [moves.rest]; rfl
      have stands := holds.ahead inside
      have open' := stands first (List.mem_of_head? begins)
      split at failed
      · cases failed
        exact unexpectedEnd_atToken
      · rename_i bounds last rest found
        have behind : ∀ t ∈ c.next.rest, t.StandsIn src.text := fun t member =>
          stands t (by rw [moves.rest]; exact List.mem_append_right _ member)
        have start : Boundary src.text ((c.rest.head?.map (·.start)).getD src.stop + 1) := by
          rw [begins, Option.map_some, Option.getD_some, ← open'.stop_of_symbol opens rfl]
          exact open'.boundary_stop
        obtain ⟨texts, cuts⟩ :=
          on_mapM_cut_of_boundary (callArguments_boundary behind start found)
        rw [cuts] at failed
        cases failed
    · cases failed
      exact mismatchAt_atToken inside _

end Raw

section Types

variable {src : Source} {tokens : List Located} [src.Holds tokens]

instance : Safe src tokens dotName := by
  refine @Safe.bind _ _ _ _ _ _ _ _ fun next => ?_
  split <;> infer_instance

instance : Safe src tokens qualifiedName := by
  unfold qualifiedName
  infer_instance

instance : Safe src tokens annotation := by
  unfold annotation
  infer_instance

instance (next : List Token) : Safe src tokens (modifierFrom next) := by
  unfold modifierFrom
  split <;> infer_instance

instance : Safe src tokens modifier := by
  unfold modifier
  infer_instance

instance : Safe src tokens modifiers := by
  unfold modifiers
  infer_instance

instance : Safe src tokens dimension := by
  unfold dimension
  infer_instance

instance : Safe src tokens dimensions := by
  unfold dimensions
  infer_instance

section Inside

variable (type : Parser TypeRef) [Onward type] [Safe src tokens type]

instance : Safe src tokens (typeArg type) := by
  unfold typeArg
  infer_instance

instance : Safe src tokens (typeArgs? type) := by
  unfold typeArgs?
  infer_instance

instance : Safe src tokens (typeSegment type) := by
  refine @Safe.bind _ _ _ _ _ _ _ _ fun next => ?_
  split <;> infer_instance

instance : Safe src tokens (typeRefOver type) := by
  unfold typeRefOver
  refine @Safe.bind _ _ _ _ _ _ _ _ fun annotations => ?_
  infer_instance

end Inside

instance : Safe src tokens typeRef := by
  refine Safe.of_recursion recursion_typeRef (fun onward safe _ => ?_) ()
  have := onward ()
  have := safe ()
  infer_instance

instance : Safe src tokens bounds := by
  unfold bounds
  infer_instance

instance : Safe src tokens typeParam := by
  unfold typeParam
  infer_instance

instance : Safe src tokens typeParams := by
  unfold typeParams
  infer_instance

end Types

section Methods

variable {src : Source} {tokens : List Located} [src.Holds tokens] (modifiers : Modifiers)
  (typeParams : List TypeParam) (returnType : Option TypeRef) (type : TypeRef) (name : String)
  (start : Nat) (doc : Option String)

instance : Safe src tokens param? := by
  unfold param?
  infer_instance

instance : Safe src tokens params := by
  unfold params
  infer_instance

instance : Safe src tokens throwsClause := by
  unfold throwsClause
  infer_instance

instance : Safe src tokens callStatement := by
  unfold callStatement
  infer_instance

instance (qualified : Bool) : Safe src tokens (assignment qualified start) := by
  unfold assignment
  infer_instance

instance (head : StatementHead) : Safe src tokens (statementFrom start head) := by
  unfold statementFrom
  split <;> infer_instance

instance : Safe src tokens statement := by
  unfold statement
  infer_instance

instance : Safe src tokens blockStep := by
  unfold blockStep
  infer_instance

instance : Safe src tokens block := by
  unfold block
  infer_instance

instance : Safe src tokens skipDefault := by
  unfold skipDefault
  infer_instance

instance : Safe src tokens body? := by
  unfold body?
  infer_instance

instance : Safe src tokens (methodRest modifiers typeParams returnType name start doc) := by
  unfold methodRest
  infer_instance

instance : Safe src tokens initializer? := by
  unfold initializer?
  infer_instance

instance : Safe src tokens (declarator name) := by
  unfold declarator
  infer_instance

instance : Safe src tokens nextDeclarator := by
  unfold nextDeclarator
  infer_instance

instance : Safe src tokens (fieldRest modifiers type name start doc) := by
  unfold fieldRest
  infer_instance

end Methods

section Classes

variable {src : Source} {tokens : List Located} [src.Holds tokens] (kind : ClassKind)

instance : Safe src tokens skipConstantBody := by
  unfold skipConstantBody
  infer_instance

instance : Safe src tokens enumConstant := by
  unfold enumConstant
  infer_instance

instance : Safe src tokens endConstants := by
  unfold endConstants
  infer_instance

instance : Safe src tokens enumConstants := by
  have : Safe src tokens constants := by
    refine Safe.of_recursion recursion_constants (fun onward safe _ => ?_) ()
    have := onward ()
    have := safe ()
    unfold constantsOver
    refine @Safe.bind _ _ _ _ _ _ _ _ fun ended => ?_
    infer_instance
  have : Onward constants := recursion_constants.onward ()
  rw [enumConstants_eq]
  infer_instance

instance : Safe src tokens classKind := by
  refine @Safe.bind _ _ _ _ _ _ _ _ fun next => ?_
  split <;> infer_instance

instance : Safe src tokens (extendsClause kind) := by
  unfold extendsClause
  infer_instance

instance : Safe src tokens implementsClause := by
  unfold implementsClause
  infer_instance

instance : Safe src tokens skipPermits := by
  unfold skipPermits
  infer_instance

instance : Safe src tokens (supertypes kind) := by
  unfold supertypes
  infer_instance

instance : Safe src tokens (recordComponents kind) := by
  unfold recordComponents
  infer_instance

instance : Safe src tokens (leadingConstants kind) := by
  unfold leadingConstants
  infer_instance

instance : Safe src tokens classHead := by
  unfold classHead
  infer_instance

section Body

variable (members : Parser (List Member)) [Onward members] [∀ src, Eats src members]
  [Safe src tokens members]

instance : Safe src tokens (classStep members) := by
  unfold classStep
  infer_instance

instance : Safe src tokens (classBody kind members) := by
  unfold classBody
  infer_instance

instance : Safe src tokens (bracedBody kind members) := by
  unfold bracedBody
  refine @Safe.bind _ _ _ _ _ _ _ _ fun start => ?_
  infer_instance

end Body

variable (modifiers : Modifiers) (typeParams : List TypeParam) (start : Nat) (doc : Option String)
  (className : String)

instance : Safe src tokens (compactConstructor modifiers typeParams start doc) := by
  unfold compactConstructor
  infer_instance

instance : Safe src tokens (methodOrFields modifiers typeParams start doc) := by
  unfold methodOrFields
  infer_instance

instance : Safe src tokens (typedMember className modifiers start doc) := by
  unfold typedMember
  infer_instance

instance : Safe src tokens staticWord := by
  unfold staticWord
  infer_instance

instance : Safe src tokens (initializerBlock? start) := by
  unfold initializerBlock?
  infer_instance

section Nested

variable (member : String → Parser (List Member)) [∀ name, Onward (member name)]
  [∀ name src, Eats src (member name)] [∀ name, Safe src tokens (member name)]
  (nested : Modifiers → Nat → Option String → Parser ClassId)
  [∀ modifiers start doc, Onward (nested modifiers start doc)]
  [∀ modifiers start doc, Safe src tokens (nested modifiers start doc)]

instance : Safe src tokens (classOver member modifiers start doc) := by
  unfold classOver
  infer_instance

instance : Safe src tokens (declaredMember nested className start) := by
  unfold declaredMember
  infer_instance

instance : Safe src tokens (memberOver nested className) := by
  unfold memberOver
  refine @Safe.bind _ _ _ _ _ _ _ _ fun start => @Safe.bind _ _ _ _ _ _ _ _ fun found => ?_
  split
  · infer_instance
  · refine @Safe.bind _ _ _ _ _ _ _ _ fun block => ?_
    split <;> infer_instance

end Nested

instance : Safe src tokens (classDecl modifiers start doc) := by
  refine Safe.of_recursion_keeping (Q := fun p => ∀ src, Eats src p) recursion_classDecl
    (fun _ _ => inferInstance) (fun {p} onward eats before => ?_)
    (fun {p} onward eats safe before => ?_) (modifiers, start, doc)
  · unfold classBehind
    infer_instance
  · unfold classBehind
    infer_instance

instance : Safe src tokens (member className) :=
  inferInstanceAs (Safe src tokens (memberOver classDecl className))

instance : Safe src tokens importTail := by
  refine Safe.of_recursion recursion_importTail (fun onward safe _ => ?_) ()
  have := onward ()
  have := safe ()
  unfold importTailOver
  infer_instance

instance : Safe src tokens (importDecl start) := by
  unfold importDecl
  infer_instance

instance : Safe src tokens packageItem := by
  unfold packageItem
  infer_instance

instance : Safe src tokens (importItem start) := by
  unfold importItem
  infer_instance

instance (next : List Token) : Safe src tokens (itemFrom modifiers start doc next) := by
  have other : Safe src tokens
      (do throw (.unexpected (← nextStart) .typeDeclaration next.head?) : Parser Item) := by
    refine ⟨fun {c e} inside failed => ?_⟩
    rw [on_bind_of_ok on_nextStart] at failed
    cases failed
    exact unexpected_atToken inside _ _
  unfold itemFrom
  infer_instance

instance : Safe src tokens item := by
  unfold item
  infer_instance

instance : Safe src tokens unitStep := by
  unfold unitStep
  infer_instance

instance : Safe src tokens unit := by
  unfold unit
  infer_instance

end Classes

end Parser
end CreatorSynth
