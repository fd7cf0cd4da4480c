import CreatorSynth.Proofs.Parser.Window

/-! The basic parsers and loops answer alike within a window. -/
namespace CreatorSynth
open Text

namespace Parser

open Window

namespace Window

variable {W : Window} {k : Nat}

namespace At

variable {us : List (Located × Located)} {u : Located × Located} {c d : Cursor}

theorem next (here : W.At (u :: us) c d) : W.At us c.next d.next := by
  have left : c.next = { c with rest := us.map (·.1) ++ W.leftTail, lastStop := u.1.stop } := by
    rw [Cursor.next, here.left]
    rfl
  have right : d.next = { d with rest := us.map (·.2) ++ W.rightTail, lastStop := u.2.stop } := by
    rw [Cursor.next, here.right]
    rfl
  rw [left, right]
  refine ⟨rfl, rfl, fun v member => here.alike v (List.mem_cons_of_mem _ member),
    here.ordered.of_cons, ?_,
    W.floor_of_place (here.alike u List.mem_cons_self).stop, here.docFloor, here.classes⟩
  refine here.calm.imp_right fun calm v last => calm v ?_
  rw [List.getLast?_cons, Option.mem_def.mp last]
  rfl

/-- Within the stretch there is a token of it ahead, or the end of both sources. -/
theorem head_cases (here : W.At us c d) (inside : W.Inside 1 c) :
    (c.rest = [] ∧ d.rest = []) ∨ ∃ u us', us = u :: us' := by
  cases us with
  | cons u us => exact .inr ⟨u, us, rfl⟩
  | nil =>
    left
    have left := here.left
    have right := here.right
    rcases inside.rest with closed | more
    · rw [closed.1] at left
      rw [closed.2] at right
      exact ⟨left, right⟩
    · rw [left, List.map_nil, List.nil_append] at more
      exact absurd more (Nat.not_succ_le_self _)

theorem left_head (here : W.At (u :: us) c d) : c.rest.head? = some u.1 := by
  rw [here.left]
  rfl

theorem right_head (here : W.At (u :: us) c d) : d.rest.head? = some u.2 := by
  rw [here.right]
  rfl

theorem not_taken {c' : Cursor} (here : W.At [] c d) (inside : W.Inside k c')
    (shorter : c'.rest.length < c.rest.length) : False := by
  have left := here.left
  rw [List.map_nil, List.nil_append] at left
  rcases inside.rest with closed | more
  · rw [left, closed.1] at shorter
    simp at shorter
  · rw [left] at shorter
    omega

theorem sign (here : W.At (u :: us) c d) : u.1.token.sign = u.2.token.sign :=
  (here.alike u List.mem_cons_self).sign

theorem floored (here : W.At us c d) {i j : Nat} (floor : W.Floor i j) :
    W.At us { c with docFloor := i } { d with docFloor := j } where
  left := here.left
  right := here.right
  alike := here.alike
  ordered := here.ordered
  calm := here.calm
  lastStop := here.lastStop
  docFloor := floor
  classes := here.classes

theorem length_le (here : W.At us c d) : c.rest.length ≤ d.rest.length := by
  have longer := W.longer
  rw [here.left, here.right]
  simp only [List.length_append, List.length_map]
  omega

end At

/-- Nothing that the right tail begins with is taken for the token. -/
def Settled (W : Window) (k : Nat) (t : Token) : Prop :=
  1 ≤ k ∨ ∀ u ∈ W.rightTail.head?, u.token ≠ t

theorem settled (W : Window) (t : Token) : W.Settled 1 t :=
  .inl (Nat.le_refl 1)

end Window

section Primitives

variable {W : Window} {k : Nat}

theorem steady_acceptToken {t : Token} (settled : W.Settled k t)
    (solid : ∀ text, t ≠ .string text) : W.Steady k (acceptToken t) (acceptToken t) Eq := by
  refine ⟨fun {us c d c' b} here run inside => ?_⟩
  rw [on_acceptToken] at run
  cases us with
  | cons u us =>
    have same := Token.eq_iff_of_sign here.sign solid
    simp only [here.left_head, Option.map_some, Option.some.injEq] at run
    simp only [on_acceptToken, here.right_head, Option.map_some, Option.some.injEq]
    split at run
    · rename_i taken
      cases run
      exact ⟨true, _, us, if_pos (same.mp taken), rfl, here.next⟩
    · rename_i other
      cases run
      exact ⟨false, _, u :: us, if_neg fun taken => other (same.mpr taken), rfl, here⟩
  | nil =>
    split at run
    · rename_i taken
      cases run
      exact absurd (next_length_of_head taken) fun shorter => here.not_taken inside shorter
    · cases run
      refine ⟨false, d, [], ?_, rfl, here⟩
      rw [on_acceptToken, if_neg]
      have right : d.rest = W.rightTail := here.right
      rcases settled with one | other
      · rcases here.head_cases (inside.weaken one) with ⟨_, none⟩ | ⟨_, _, more⟩
        · rw [none]
          exact nofun
        · cases more
      · rw [right]
        cases head : W.rightTail.head? with
        | none => exact nofun
        | some u =>
          intro taken
          exact other u head (Option.some.inj taken)

theorem steady_accept {s : Symbol} (settled : W.Settled k (.symbol s)) :
    W.Steady k (accept s) (accept s) Eq :=
  steady_acceptToken settled nofun

theorem steady_acceptKeyword {word : Keyword} (settled : W.Settled k (.keyword word)) :
    W.Steady k (acceptKeyword word) (acceptKeyword word) Eq :=
  steady_acceptToken settled nofun

theorem steady_acceptWord {word : String} (settled : W.Settled k (.name word)) :
    W.Steady k (acceptWord word) (acceptWord word) Eq :=
  steady_acceptToken settled nofun

theorem Window.At.sees_head {u : Located × Located} {us : List (Located × Located)} {c d : Cursor}
    (here : W.At (u :: us) c d) (s : Symbol) :
    (c.rest.head?.map (·.token) == some (.symbol s)) =
      (d.rest.head?.map (·.token) == some (.symbol s)) := by
  rw [here.left_head, here.right_head, Option.map_some, Option.map_some]
  have same := Token.eq_iff_of_sign here.sign (v := .symbol s) nofun
  rw [Bool.eq_iff_iff]
  simpa using same

/-- A symbol comes next on both sides or on none, in the window and where both sources end. -/
theorem Window.At.sees_same {us : List (Located × Located)} {c d : Cursor} (here : W.At us c d)
    (inside : W.Inside 1 c) (s : Symbol) :
    (c.rest.head?.map (·.token) == some (.symbol s)) =
      (d.rest.head?.map (·.token) == some (.symbol s)) := by
  rcases here.head_cases inside with ⟨left, right⟩ | ⟨u, us', rfl⟩
  · rw [left, right]
  · exact here.sees_head s

theorem Window.At.accept_none {us : List (Located × Located)} {c d : Cursor} {s : Symbol}
    (here : W.At us c d) (inside : W.Inside 1 c)
    (other : c.rest.head?.map (·.token) ≠ some (.symbol s)) :
    (accept s).on W.right d = .ok (false, d) := by
  have same := here.sees_same inside s
  rw [on_accept, if_neg]
  intro taken
  rw [taken, BEq.rfl, beq_iff_eq] at same
  exact other same

theorem Window.At.accept_some {us : List (Located × Located)} {c d : Cursor} {s : Symbol}
    (here : W.At us c d) (inside : W.Inside k c.next)
    (head : c.rest.head?.map (·.token) = some (.symbol s)) :
    ∃ us', (accept s).on W.right d = .ok (true, d.next) ∧ W.At us' c.next d.next := by
  cases us with
  | nil => exact (here.not_taken inside (next_length_of_head head)).elim
  | cons u us =>
    have same := here.sees_head s
    rw [head, BEq.rfl] at same
    exact ⟨us, by rw [on_accept, if_pos (eq_of_beq same.symm)], here.next⟩

theorem steady_sees (s : Symbol) : W.Steady 1 (sees s) (sees s) Eq :=
  Steady.peeking (fun _ _ => on_sees s) (fun _ _ => on_sees s) fun here inside =>
    here.sees_same inside s

theorem steady_atEnd : W.Steady 1 atEnd atEnd Eq := by
  refine Steady.peeking (fun _ _ => on_atEnd) (fun _ _ => on_atEnd) fun {us c d} here inside => ?_
  rcases here.head_cases inside with ⟨left, right⟩ | ⟨u, us', rfl⟩
  · rw [left, right]
  · rw [here.left, here.right]
    rfl

theorem steady_nextStart : W.Steady 1 nextStart nextStart W.Place := by
  refine Steady.peeking (fun _ _ => on_nextStart) (fun _ _ => on_nextStart)
    fun {us c d} here inside => ?_
  rcases here.head_cases inside with ⟨left, right⟩ | ⟨u, us', rfl⟩
  · rw [left, right]
    cases us with
    | nil =>
      have closed := here.left
      have closed' := here.right
      rw [left] at closed
      rw [right] at closed'
      exact W.ends closed.symm closed'.symm
    | cons u us =>
      rw [here.left] at left
      cases left
  · rw [here.left_head, here.right_head]
    exact (here.alike u List.mem_cons_self).start

theorem steady_expectMore : W.Steady 1 expectMore expectMore Eq := by
  refine steady_atEnd.bind fun ended _ same => ?_
  subst same
  split
  · exact (steady_nextStart.bind fun _ _ _ => .throw)
  · exact .pure rfl

theorem steady_upcoming (n : Nat) :
    W.Steady n (upcoming n) (upcoming n) fun ts ts' => ts.map Token.sign = ts'.map Token.sign := by
  refine Steady.peeking (fun _ _ => on_upcoming n) (fun _ _ => on_upcoming n)
    fun {us c d} here inside => ?_
  have same : us.map (fun u => u.1.token.sign) = us.map fun u => u.2.token.sign :=
    List.map_congr_left fun u member => (here.alike u member).sign
  have left := here.left
  have right := here.right
  have fits : (c.rest.take n = (us.map (·.1)).take n) ∧ d.rest.take n = (us.map (·.2)).take n := by
    rcases inside.rest with closed | more
    · rw [closed.1, List.append_nil] at left
      rw [closed.2, List.append_nil] at right
      rw [left, right]
      exact ⟨rfl, rfl⟩
    · rw [left, List.length_append, List.length_map] at more
      rw [left, right, List.take_append_of_le_length, List.take_append_of_le_length]
      · exact ⟨rfl, rfl⟩
      · rw [List.length_map]; omega
      · rw [List.length_map]; omega
  rw [fits.1, fits.2, ← List.map_take, ← List.map_take]
  simp only [List.map_map, Function.comp_def]
  rw [List.map_take, List.map_take, same]

theorem steady_spanFrom (i j : Nat) : W.Steady k (spanFrom i) (spanFrom j) fun _ _ => True :=
  Steady.peeking (fun _ _ => on_spanFrom i) (fun _ _ => on_spanFrom j) fun _ _ => trivial

theorem steady_lastStop : W.Steady k lastStop lastStop fun _ _ => True :=
  Steady.peeking (u := fun _ c => c.lastStop) (v := fun _ c => c.lastStop) (fun _ _ => rfl)
    (fun _ _ => rfl) fun _ _ => trivial

theorem steady_raiseDocFloor {i j : Nat} (floor : W.Floor i j) :
    W.Steady k (raiseDocFloor i) (raiseDocFloor j) Eq := by
  refine ⟨fun {us c d c' b} here run inside => ?_⟩
  rw [on_raiseDocFloor] at run
  cases run
  exact ⟨_, _, us, on_raiseDocFloor j, rfl, here.floored floor⟩

theorem steady_closeDocs : W.Steady k closeDocs closeDocs Eq := by
  refine ⟨fun {us c d c' b} here run inside => ?_⟩
  cases run
  exact ⟨⟨⟩, { d with docFloor := d.lastStop }, us, rfl, rfl, here.floored here.lastStop⟩

theorem steady_docBefore {i j : Nat} (place : W.Place i j) :
    W.Steady k (docBefore i) (docBefore j) fun a b => a.map W.key = b.map W.key :=
  Steady.peeking (fun _ _ => on_docBefore i) (fun _ _ => on_docBefore j)
    fun here _ => W.doc here.docFloor place

theorem steady_cut {i j i' j' : Nat} (place : W.Place i j) (place' : W.Place i' j') :
    W.Steady k (cut i i') (cut j j') (SameText W.key) := by
  refine ⟨fun {us c d c' text} here run inside => ?_⟩
  rw [on_cut] at run
  split at run
  · rename_i cs found
    obtain ⟨ds, found', same⟩ := W.cut place place' found
    cases run
    exact ⟨String.ofList (trim ds), d, us, by rw [on_cut, found'], same, here⟩
  · cases run

theorem steady_expect (s : Symbol) : W.Steady 0 (expect s) (expect s) Eq := by
  refine ⟨fun {us c d c' b} here run inside => ?_⟩
  rw [on_expect] at run
  split at run
  · rename_i head
    cases run
    cases us with
    | nil => exact (here.not_taken inside (next_length_of_head head)).elim
    | cons u us =>
      refine ⟨⟨⟩, d.next, us, ?_, rfl, here.next⟩
      rw [here.left_head, Option.map_some, Option.some.injEq] at head
      rw [on_expect, here.right_head, Option.map_some, if_pos]
      rw [(Token.eq_iff_of_sign here.sign (v := .symbol s) nofun).mp head]
  · cases run

theorem steady_expectKeyword (word : Keyword) :
    W.Steady 0 (expectKeyword word) (expectKeyword word) Eq := by
  refine ⟨fun {us c d c' b} here run inside => ?_⟩
  rw [on_expectKeyword] at run
  split at run
  · rename_i head
    cases run
    cases us with
    | nil => exact (here.not_taken inside (next_length_of_head head)).elim
    | cons u us =>
      refine ⟨⟨⟩, d.next, us, ?_, rfl, here.next⟩
      rw [here.left_head, Option.map_some, Option.some.injEq] at head
      rw [on_expectKeyword, here.right_head, Option.map_some, if_pos]
      rw [(Token.eq_iff_of_sign here.sign (v := .keyword word) nofun).mp head]
  · cases run

theorem steady_identifier : W.Steady 0 identifier identifier Eq := by
  refine ⟨fun {us c d c' name} here run inside => ?_⟩
  cases us with
  | nil => exact (here.not_taken inside (Eats.eats run)).elim
  | cons u us =>
    rw [on_identifier, here.left_head, Option.map_some] at run
    rw [on_identifier, here.right_head, Option.map_some]
    split at run
    · rename_i text head
      cases run
      have token := (Token.eq_iff_of_sign here.sign (v := .name name) (by simp)).mp (Option.some.inj head)
      rw [token]
      exact ⟨name, d.next, us, rfl, rfl, here.next⟩
    · rename_i head
      cases run
      have token := (Token.eq_iff_of_sign here.sign (v := .keyword .recordWord) (by simp)).mp (Option.some.inj head)
      rw [token]
      exact ⟨_, d.next, us, rfl, rfl, here.next⟩
    · cases run

theorem steady_addClass {x y : ClassDecl} (same : x.plain W.key W.renumber = y.plain W.key id) :
    W.Steady k (addClass x) (addClass y) fun i j => W.renumber i = j := by
  refine ⟨fun {us c d c' i} here run inside => ?_⟩
  obtain ⟨cs, ds, left, right, classes⟩ := here.classes
  cases run
  have created : c.classes.length + 1 ≤ W.limit := by
    simpa using inside.classes
  refine ⟨d.classes.length, { d with classes := d.classes ++ [y] }, us, rfl, ?_, here.left,
    here.right, here.alike, here.ordered, here.calm, here.lastStop, here.docFloor, cs ++ [x], ds ++ [y], ?_, ?_,
    ?_⟩
  · have lengths := congrArg List.length classes
    rw [List.length_map, List.length_map] at lengths
    have older : W.leftBase.length ≤ c.classes.length := by
      rw [left, List.length_append]
      omega
    have number := W.renumbered older (by omega)
    rw [right, List.length_append]
    rw [left, List.length_append] at number ⊢
    omega
  · change c.classes ++ [x] = _
    rw [left, List.append_assoc]
  · rw [right, List.append_assoc]
  · rw [List.map_append, List.map_append, classes, List.map_singleton, List.map_singleton, same]

end Primitives

section Loops

variable {W : Window} {k : Nat} {α β γ : Type} {step : Parser (Option α)} {step' : Parser (Option β)} {f : α → γ} {g : β → γ}

theorem steady_repeatWithin [Onward step]
    (steps : W.Steady k step step' fun a b => a.map f = b.map g) {m n : Nat} (le : m ≤ n) :
    W.Steady k (repeatWithin step m) (repeatWithin step' n) fun as bs => as.map f = bs.map g := by
  induction m generalizing n with
  | zero => exact .throw
  | succ m ih =>
    obtain ⟨n, rfl⟩ : ∃ n', n = n' + 1 := ⟨n - 1, by omega⟩
    refine steps.andThen (fun _ => by split <;> infer_instance) fun a b same => ?_
    cases a with
    | none =>
      cases b with
      | none => exact .pure rfl
      | some b => cases same
    | some a =>
      cases b with
      | none => cases same
      | some b =>
        refine (ih (Nat.le_of_succ_le_succ le)).bind fun as bs others => .pure ?_
        rw [List.map_cons, List.map_cons, others, Option.some.inj same]

theorem steady_many [Onward step]
    (steps : W.Steady k step step' fun a b => a.map f = b.map g) :
    W.Steady k (many step) (many step') fun as bs => as.map f = bs.map g := by
  refine ⟨fun {us c d c' as} here run inside => ?_⟩
  rw [many, on_bind_of_ok on_get] at run
  rw [many, on_bind_of_ok on_get]
  have longer := here.length_le
  exact (steady_repeatWithin steps (Nat.add_le_add_right longer 1)).follow here run inside

theorem steady_separated {item : Parser α} {item' : Parser β} [Onward item] (s : Symbol)
    (items : W.Steady 1 item item' fun a b => f a = g b) :
    W.Steady 1 (separated s item) (separated s item') fun as bs => as.map f = bs.map g := by
  refine items.bind fun a b same => ?_
  refine (steady_many (f := f) (g := g) ?_).bind fun as bs others => .pure ?_
  · refine (steady_accept (W.settled _)).bind fun found _ known => ?_
    subst known
    split
    · exact items.bind fun a b same => .pure (congrArg some same)
    · exact .pure rfl
  · rw [List.map_cons, List.map_cons, same, others]

theorem steady_many_same {step step' : Parser (Option α)} [Onward step]
    (steps : W.Steady k step step' Eq) : W.Steady k (many step) (many step') Eq := by
  have mapped : W.Steady k step step' fun a b => a.map id = b.map id :=
    steps.imp fun {a b} same => by rw [same]
  refine (steady_many mapped).imp fun {as bs} same => ?_
  rwa [List.map_id, List.map_id] at same

theorem steady_separated_same {item item' : Parser α} [Onward item] (s : Symbol)
    (items : W.Steady 1 item item' Eq) :
    W.Steady 1 (separated s item) (separated s item') Eq := by
  refine (steady_separated (f := id) (g := id) s items).imp fun {as bs} same => ?_
  rwa [List.map_id, List.map_id] at same

end Loops

end Parser

end CreatorSynth
