import CreatorSynth.Proofs.Parser.Enclosure.Basic

/-! Parts of a text that are passed over and kept as text end where they do in front of the brace. -/
namespace CreatorSynth
open Text

namespace Parser

namespace Enclosure

variable {E : Enclosure}

section Scans

variable {ts rest : List Located} {last : Located}

theorem ite_alike {α β : Type} {condition : Prop} [Decidable condition] {p p' a : α} {q q' b : β}
    (run : (if condition then p else p') = a) (yes : p = a → q = b) (no : p' = a → q' = b) :
    (if condition then q else q') = b := by
  split at run
  · rename_i holds
    rw [if_pos holds]
    exact yes run
  · rename_i fails
    rw [if_neg fails]
    exact no run

/-- A group of the text ends before the brace, of whatever kind its brackets are. -/
theorem closeGroup_closed {opening closing : Symbol} {inner : Nat}
    (found : closeGroup opening closing inner ts = some (last, rest)) :
    closeGroup opening closing inner (E.closed ts) =
      some (last.behind E.offset, E.closed rest) := by
  induction ts generalizing inner with
  | nil => cases found
  | cons t ts ih =>
    obtain ⟨token, start, stop⟩ := t
    rw [closed_cons]
    simp only [closeGroup] at found ⊢
    apply ite_alike found ih
    intro found
    apply ite_alike found ?_ ih
    intro found
    cases inner with
    | zero =>
      cases found
      rfl
    | succ inner => exact ih found

/-- The bounds of an argument in the longer text. -/
def shiftBound (E : Enclosure) (bound : Nat × Nat) : Nat × Nat :=
  (E.offset + bound.1, E.offset + bound.2)

theorem callArguments_closed {depth start : Nat} {found : List (Nat × Nat)}
    (run : callArguments depth start ts = some (found, last, rest)) :
    callArguments depth (E.offset + start) (E.closed ts) =
      some (found.map E.shiftBound, last.behind E.offset, E.closed rest) := by
  induction ts generalizing depth start found with
  | nil => cases run
  | cons t ts ih =>
    obtain ⟨token, begin, stop⟩ := t
    rw [closed_cons]
    simp only [callArguments] at run ⊢
    apply ite_alike run
    · intro run
      cases run
      rfl
    · intro run
      apply ite_alike run ?_ ih
      intro run
      obtain ⟨⟨others, closing, more⟩, inner, same⟩ := Option.map_eq_some_iff.mp run
      cases same
      rw [ih inner]
      rfl

theorem breaksBetween_closed {i j : Nat} {b : Bool} (known : E.inner.breaksBetween i j = .ok b) :
    E.outer.breaksBetween (E.offset + i) (E.offset + j) = .ok b := by
  unfold Source.breaksBetween at known ⊢
  rw [E.dialect]
  split at known
  · exact known
  · split at known
    · rename_i gap cut
      have within := slice?_within E.front E.back cut
      rw [← E.text] at within
      rw [Nat.add_min_add_left, offset, within]
      exact known
    · cases known

variable {passed : Option Nat}

theorem bind_breaksAfter {α β : Type} {j : Nat} {f : Bool → Except ParseError α}
    {g : Bool → Except ParseError β} {a : α} {b : β}
    (run : E.inner.breaksAfter passed j >>= f = .ok a) (next : ∀ broken, f broken = .ok a →
      g broken = .ok b) :
    E.outer.breaksAfter (passed.map (E.offset + ·)) (E.offset + j) >>= g = .ok b := by
  cases passed with
  | none => exact next false run
  | some i =>
    cases breaks : E.inner.breaksBetween i j with
    | error e =>
      rw [Source.breaksAfter, breaks] at run
      cases run
    | ok broken =>
      rw [Source.breaksAfter, breaks] at run
      rw [Option.map_some, Source.breaksAfter, breaksBetween_closed breaks]
      exact next broken run

/-- What was passed over, seen in the longer text. -/
def passedOver (E : Enclosure) (found : Source.Passed) : Source.Passed :=
  (found.1.map (E.offset + ·), E.closed found.2)

theorem passExpression_closed {depth : Nat} {found : Source.Passed}
    (run : E.inner.passExpression depth passed ts = .ok found) :
    E.outer.passExpression depth (passed.map (E.offset + ·)) (E.closed ts) =
      .ok (E.passedOver found) := by
  induction ts generalizing depth passed with
  | nil => cases run
  | cons t ts ih =>
    obtain ⟨token, start, stop⟩ := t
    rw [closed_cons]
    simp only [Source.passExpression] at run ⊢
    apply ite_alike run ?_ ih
    intro run
    apply ite_alike run
    · intro run
      cases run
      rfl
    · intro run
      apply bind_breaksAfter run
      intro broken run
      cases broken with
      | true =>
        cases run
        rfl
      | false => exact ih run

theorem passInitializer_closed {depth angles : Nat} {previous : Option Token}
    {found : Source.Passed}
    (run : E.inner.passInitializer depth angles previous passed ts = .ok found) :
    E.outer.passInitializer depth angles previous (passed.map (E.offset + ·)) (E.closed ts) =
      .ok (E.passedOver found) := by
  induction ts generalizing depth angles previous passed with
  | nil => cases run
  | cons t ts ih =>
    obtain ⟨token, start, stop⟩ := t
    rw [closed_cons]
    simp only [Source.passInitializer] at run ⊢
    apply ite_alike run ?_ ih
    intro run
    apply ite_alike run
    · intro run
      cases run
      rfl
    · intro run
      apply bind_breaksAfter run
      intro broken run
      cases broken with
      | true =>
        cases run
        rfl
      | false => exact ih run

/-- The brace behind the text does not continue a block, just as its end does not. -/
theorem continuesBlock_closed (ts : List Located) :
    Token.continuesBlock ((E.closed ts).head?.map (·.token)) =
      Token.continuesBlock (ts.head?.map (·.token)) := by
  cases ts with
  | nil =>
    change Token.continuesBlock (some E.brace.token) = _
    rw [E.closes]
    rfl
  | cons t ts => rfl

theorem passStatement_closed {depth : Nat} {found : Option Nat × Source.Passed}
    (run : E.inner.passStatement depth passed ts = .ok found) :
    E.outer.passStatement depth (passed.map (E.offset + ·)) (E.closed ts) =
      .ok (found.1.map (E.offset + ·), E.passedOver found.2) := by
  induction ts generalizing depth passed with
  | nil => cases run
  | cons t ts ih =>
    obtain ⟨token, start, stop⟩ := t
    rw [closed_cons]
    -- Behind the token the statement ends, or it goes on with the others.
    have behind {ends : Prop} [Decidable ends]
        (run : (if ends then pure (some stop, some stop, ts)
          else E.inner.passStatement (token.nest depth) (some stop) ts) = Except.ok found) :
        (if ends then pure (some (E.offset + stop), some (E.offset + stop), E.closed ts)
          else E.outer.passStatement (token.nest depth) (some (E.offset + stop)) (E.closed ts)) =
          Except.ok (found.1.map (E.offset + ·), E.passedOver found.2) := by
      apply ite_alike run ?_ ih
      intro run
      cases run
      rfl
    simp only [Source.passStatement, continuesBlock_closed] at run ⊢
    apply ite_alike run ?_ behind
    intro run
    apply ite_alike run
    · intro run
      cases run
      rfl
    · intro run
      apply ite_alike run
      · intro run
        cases run
        rfl
      · intro run
        apply bind_breaksAfter run
        intro broken run
        cases broken with
        | true =>
          cases run
          rfl
        | false => exact behind run

end Scans

section Texts

theorem follows_group (opening closing : Symbol) :
    E.Follows 0 (Span.shift E.offset) (group opening closing) (group opening closing) := by
  apply Follows.next
  intro start
  apply Follows.after
  intro _
  constructor
  intro c d c' span here _ run
  rw [on_bind_of_ok on_get] at run ⊢
  rw [here.rest]
  split at run
  · cases run
  · rename_i last rest found
    obtain ⟨taken, split, _⟩ := closeGroup_taken found
    have fewer : rest.length ≤ c.rest.length := by
      rw [split, List.length_append]
      exact Nat.le_add_left _ _
    rw [closeGroup_closed found]
    rw [on_bind_of_ok (on_moveTo _ _)] at run ⊢
    have there := here.moved fewer (Nat.add_sub_cancel_left E.offset last.stop)
    exact (follows_spanFrom (n := 0) start).follow there (Nat.zero_le _) run

instance (opening closing : Symbol) : E.Same (groupText opening closing) where
  same := by
    apply (follows_group opening closing).bind
    intro span
    have cuts := follows_cut (E := E) (n := 0) (span.start + 1) (span.stop - 1)
    constructor
    intro c d c' text here some run
    obtain ⟨d', found, there⟩ := cuts.follow here some run
    refine ⟨d', ?_, there⟩
    rw [on_cut] at found ⊢
    -- A span that ends at the very beginning is cut like one that ends behind its bracket.
    have ends : max (E.offset + (span.stop - 1)) (E.offset + (span.start + 1)) =
        max ((span.shift E.offset).stop - 1) ((span.shift E.offset).start + 1) := by
      simp only [Span.shift]
      omega
    rw [← ends]
    exact found

instance : E.Same argumentText? := by
  have opens : E.Same (sees .lparen) := same_sees (by decide)
  unfold argumentText?
  infer_instance

theorem follows_cuts (found : List (Nat × Nat)) :
    E.Follows 0 id (found.mapM fun bound => cut bound.1 bound.2)
      ((found.map E.shiftBound).mapM fun bound => cut bound.1 bound.2) := by
  induction found with
  | nil => exact .pure rfl
  | cons bound found ih =>
    rw [List.map_cons, List.mapM_cons, List.mapM_cons]
    apply (follows_cut bound.1 bound.2).bind
    intro text
    exact ih.bind fun texts => .pure rfl

instance : E.Same callArgs where
  same := by
    apply Follows.next
    intro start
    apply Follows.after
    intro _
    constructor
    intro c d c' args here some run
    rw [on_bind_of_ok on_get] at run ⊢
    rw [here.rest, Nat.add_assoc]
    split at run
    · cases run
    · rename_i found last rest args
      obtain ⟨taken, split, _⟩ := callArguments_taken args
      have fewer : rest.length ≤ c.rest.length := by
        rw [split, List.length_append]
        exact Nat.le_add_left _ _
      obtain ⟨texts, mid, cuts, run⟩ := on_bind_eq_ok.mp run
      obtain ⟨mid', cuts', there⟩ := (follows_cuts found).follow here some cuts
      rw [callArguments_closed args, on_bind_of_ok cuts']
      rw [← on_mapM_cut cuts] at fewer
      cases run
      exact ⟨_, rfl, there.moved fewer (Nat.add_sub_cancel_left _ _)⟩

theorem demands_passing {α : Type} {f : Source → Cursor → Except ParseError α}
    {g : α → Source.Passed} {k : α → Option Nat} (src : Source)
    (ends : ∀ {c r}, f src c = .ok r → 0 < c.rest.length) (start : Nat) :
    Demands src (do
      let src ← read
      let c ← get
      let a ← liftM (f src c)
      resume (g a)
      cut start ((k a).getD start)) where
  some run := by
    obtain ⟨a, found, _⟩ := of_passing run
    exact ends found

/-- Where passing over tokens ends alike, so does a parser that cuts them out. -/
theorem same_passing {α : Type} {f : Source → Cursor → Except ParseError α}
    {g : α → Source.Passed} {k : α → Option Nat} {h : α → α}
    (ends : ∀ {src c r}, f src c = .ok r → 0 < c.rest.length)
    (shorter : ∀ {src c r}, f src c = .ok r → (g r).2.length ≤ c.rest.length)
    (passes : ∀ {c d a}, E.At c d → f E.inner c = .ok a → f E.outer d = .ok (h a))
    (left : ∀ a, g (h a) = E.passedOver (g a)) (stop : ∀ a, k (h a) = (k a).map (E.offset + ·)) :
    E.Same (do
      let start ← nextStart
      let src ← read
      let c ← get
      let a ← liftM (f src c)
      resume (g a)
      cut start ((k a).getD start)) where
  same := by
    have demands (start : Nat) := demands_passing (g := g) (k := k) E.inner ends start
    apply Follows.next
    intro start
    constructor
    intro c d c' text here some run
    obtain ⟨a, found, run⟩ := of_passing run
    rw [on_bind_of_ok on_read, on_bind_of_ok on_get, passes here found,
      on_bind_of_ok (on_liftExcept _), on_bind_of_ok (on_resume _), left, stop]
    have place : ((g a).1.map (E.offset + ·)).getD d.lastStop - E.offset =
        (g a).1.getD c.lastStop := by
      cases (g a).1 with
      | none => exact here.lastStop
      | some last => exact Nat.add_sub_cancel_left _ _
    have ends : ((k a).map (E.offset + ·)).getD (E.offset + start) =
        E.offset + (k a).getD start := by
      cases k a <;> rfl
    rw [ends]
    exact (follows_cut start _).follow (here.moved (shorter found) place) (Nat.zero_le _) run

theorem length_le_of_passes {ts : List Located} {passed : Option Nat} {found : Source.Passed}
    (passes : Passes ts passed found) : found.2.length ≤ ts.length := by
  obtain ⟨taken, split, _⟩ := passes
  rw [split, List.length_append]
  exact Nat.le_add_left _ _

theorem length_pos_of_passing {α : Type} {f : List Located → Except ParseError α} {c : Cursor}
    {r : α} (ends : f [] ≠ .ok r) (run : f c.rest = .ok r) : 0 < c.rest.length := by
  apply List.length_pos_iff.mpr
  intro none
  rw [none] at run
  exact ends run

theorem length_pos_of_statement {src : Source} {c : Cursor} {found : Option Nat × Source.Passed}
    (run : src.passStatement 0 none c.rest = .ok found) : 0 < c.rest.length :=
  length_pos_of_passing (f := src.passStatement 0 none) nofun run

theorem length_pos_of_expression {src : Source} {c : Cursor} {found : Source.Passed}
    (run : src.passExpression 0 none c.rest = .ok found) : 0 < c.rest.length :=
  length_pos_of_passing (f := src.passExpression 0 none) nofun run

theorem length_pos_of_initializer {src : Source} {c : Cursor} {found : Source.Passed}
    (run : src.passInitializer 0 0 none none c.rest = .ok found) : 0 < c.rest.length :=
  length_pos_of_passing (f := src.passInitializer 0 0 none none) nofun run

instance : E.Same expression := by
  apply same_passing (f := fun src c => src.passExpression 0 none c.rest) (g := id)
    (k := Prod.fst) (h := E.passedOver)
  · intro src c r run
    exact length_pos_of_expression run
  · intro src c r run
    exact length_le_of_passes (passExpression_passes run)
  · intro c d a here run
    rw [here.rest]
    exact passExpression_closed run
  · exact fun _ => rfl
  · exact fun _ => rfl

instance : E.Same initializer := by
  apply same_passing (f := fun src c => src.passInitializer 0 0 none none c.rest) (g := id)
    (k := Prod.fst) (h := E.passedOver)
  · intro src c r run
    exact length_pos_of_initializer run
  · intro src c r run
    exact length_le_of_passes (passInitializer_passes run)
  · intro c d a here run
    rw [here.rest]
    exact passInitializer_closed run
  · exact fun _ => rfl
  · exact fun _ => rfl

instance : E.Same rawStatement := by
  apply same_passing (f := fun src c => src.passStatement 0 none c.rest) (g := Prod.snd)
    (k := Prod.fst) (h := fun found => (found.1.map (E.offset + ·), E.passedOver found.2))
  · exact length_pos_of_statement
  · intro src c r run
    exact length_le_of_passes (passStatement_passes run)
  · intro c d a here run
    rw [here.rest]
    exact passStatement_closed run
  · exact fun _ => rfl
  · exact fun _ => rfl

instance {src : Source} : Demands src rawStatement := by
  have demands (start : Nat) := demands_passing
    (f := fun src c => src.passStatement 0 none c.rest) (g := Prod.snd) (k := Prod.fst) src
    length_pos_of_statement start
  exact Demands.next

end Texts

end Enclosure

end Parser

end CreatorSynth
