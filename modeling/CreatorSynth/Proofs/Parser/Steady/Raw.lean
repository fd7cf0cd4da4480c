import CreatorSynth.Proofs.Parser.Steady.Basic

/-! Parts that are passed over answer alike within a window. -/
namespace CreatorSynth
open Text

namespace Token

variable {t u : Token}

theorem nest_of_sign (same : t.sign = u.sign) (depth : Nat) : t.nest depth = u.nest depth := by
  cases t <;> cases u <;> simp_all [sign, nest]

theorem beforeTypeArgs_of_sign {t u : Option Token} (same : t.map sign = u.map sign) :
    beforeTypeArgs t = beforeTypeArgs u := by
  rcases t with _ | t <;> rcases u with _ | u
  · rfl
  · cases same
  · cases same
  · cases t <;> cases u <;> simp_all [sign, beforeTypeArgs]

theorem nestAngles_of_sign {previous previous' : Option Token}
    (before : previous.map sign = previous'.map sign) (same : t.sign = u.sign) (angles : Nat) :
    t.nestAngles previous angles = u.nestAngles previous' angles := by
  have opens := beforeTypeArgs_of_sign before
  cases t with
  | symbol s =>
    have own := (eq_iff_of_sign same (v := .symbol s) nofun).mp rfl
    subst own
    cases s <;> simp only [nestAngles, opens]
  | _ => cases u <;> simp_all [sign, nestAngles]

theorem continuesBlock_of_sign {t u : Option Token} (same : t.map sign = u.map sign) :
    continuesBlock t = continuesBlock u := by
  rcases t with _ | t <;> rcases u with _ | u
  · rfl
  · cases same
  · cases same
  · cases t <;> cases u <;> simp_all [sign, continuesBlock]

end Token

namespace Parser

namespace Window

variable {W : Window}

/-- No offset on either side, or the same place. -/
def Place? (W : Window) : Option Nat → Option Nat → Prop
  | none, none => True
  | some i, some j => W.Place i j
  | _, _ => False

theorem place?_none : W.Place? none none :=
  trivial

theorem place?_some {i j : Nat} (place : W.Place i j) : W.Place? (some i) (some j) :=
  place

theorem Place?.getD {passed passed' : Option Nat} {i j : Nat} (same : W.Place? passed passed')
    (place : W.Place i j) : W.Place (passed.getD i) (passed'.getD j) := by
  cases passed <;> cases passed'
  · exact place
  · exact same.elim
  · exact same.elim
  · exact same

theorem breaksAfter {passed passed' : Option Nat} {i j : Nat} {b : Bool}
    (same : W.Place? passed passed') (place : W.Place i j)
    (run : W.left.breaksAfter passed i = .ok b) : W.right.breaksAfter passed' j = .ok b := by
  cases passed <;> cases passed'
  · exact run
  · exact same.elim
  · exact same.elim
  · exact W.breaks same place run

/-- A line ends between the stretch and what follows it on the right. -/
def Breaks (W : Window) : Prop :=
  ∃ t ts, W.rightTail = t :: ts ∧
    ∀ {i j : Nat}, W.Place i j → W.right.breaksBetween j t.start = .ok true

theorem At.behind {ws us : List (Located × Located)} {c d : Cursor} {i j : Nat}
    (here : W.At (ws ++ us) c d) (floor : W.Floor i j) :
    W.At us { c with rest := us.map (·.1) ++ W.leftTail, lastStop := i }
      { d with rest := us.map (·.2) ++ W.rightTail, lastStop := j } where
  left := rfl
  right := rfl
  alike u member := here.alike u (List.mem_append_right _ member)
  ordered := (List.pairwise_append.mp here.ordered).2.1
  calm := by
    refine here.calm.imp_right fun calm u last => calm u ?_
    rw [List.getLast?_append, Option.mem_def.mp last]
    rfl
  lastStop := floor
  docFloor := here.docFloor
  classes := here.classes

/-- Behind the window nothing is taken. -/
theorem nothing_taken (W : Window) {taken rest : List Located} (whole : W.leftTail = taken ++ rest)
    (inside : W.Closed ∨ W.leftTail.length ≤ rest.length) : taken = [] := by
  rcases inside with closed | more
  · rw [closed.1] at whole
    exact (List.append_eq_nil_iff.mp whole.symm).1
  · rw [whole, List.length_append] at more
    exact List.eq_nil_of_length_eq_zero (by omega)

end Window

section Groups

variable {W : Window} {us : List (Located × Located)}

theorem closeGroup_steady {opening closing : Symbol} {inner : Nat} {last : Located}
    {rest : List Located} (alike : ∀ u ∈ us, W.Alike u)
    (found : closeGroup opening closing inner (us.map (·.1) ++ W.leftTail) = some (last, rest))
    (inside : W.Closed ∨ W.leftTail.length ≤ rest.length) :
    ∃ ws u us', us = ws ++ u :: us' ∧ last = u.1 ∧ rest = us'.map (·.1) ++ W.leftTail ∧
      u.1.token = .symbol closing ∧
      closeGroup opening closing inner (us.map (·.2) ++ W.rightTail) =
        some (u.2, us'.map (·.2) ++ W.rightTail) := by
  induction us generalizing inner with
  | nil =>
    obtain ⟨taken, whole, ends, _⟩ := closeGroup_taken found
    rw [W.nothing_taken whole inside] at ends
    cases ends
  | cons u us ih =>
    have same := (alike u List.mem_cons_self).sign
    have opens := Token.eq_iff_of_sign same (v := .symbol opening) nofun
    have closes := Token.eq_iff_of_sign same (v := .symbol closing) nofun
    have later : ∀ {inner}, closeGroup opening closing inner (us.map (·.1) ++ W.leftTail) =
        some (last, rest) → ∃ ws v us', u :: us = ws ++ v :: us' ∧ last = v.1 ∧
        rest = us'.map (·.1) ++ W.leftTail ∧ v.1.token = .symbol closing ∧
        closeGroup opening closing inner (us.map (·.2) ++ W.rightTail) =
          some (v.2, us'.map (·.2) ++ W.rightTail) := by
      intro inner found
      obtain ⟨ws, v, us', whole, ends, behind, token, right⟩ :=
        ih (fun v member => alike v (List.mem_cons_of_mem _ member)) found
      exact ⟨u :: ws, v, us', by rw [whole, List.cons_append], ends, behind, token, right⟩
    simp only [List.map_cons, List.cons_append, closeGroup, ← opens, ← closes] at found ⊢
    split at found
    · rename_i opened
      simp only [opened, ↓reduceIte]
      exact later found
    · rename_i unopened
      simp only [unopened, ↓reduceIte]
      split at found
      · rename_i closed
        simp only [closed, ↓reduceIte]
        cases inner with
        | zero =>
          cases found
          exact ⟨[], u, us, rfl, rfl, rfl, closed, rfl⟩
        | succ inner => exact later found
      · rename_i unclosed
        simp only [unclosed, ↓reduceIte]
        exact later found

/-- The places between the brackets of a group. -/
def GroupPlaces (W : Window) (span span' : Span) : Prop :=
  W.Place (span.start + 1) (span'.start + 1) ∧ W.Place (span.stop - 1) (span'.stop - 1)

theorem byteLength_bracket {t : Token} {s : Symbol} (token : t = .symbol s)
    (bracket : s.isOpen = true ∨ s.isClose = true) : byteLength t.text.toList = 1 := by
  rw [token]
  cases s <;> first | rfl | simp [Symbol.isOpen, Symbol.isClose] at bracket

theorem steady_group {opening closing : Symbol} (opens : opening.isOpen = true)
    (closes : closing.isClose = true) :
    W.Steady 0 (group opening closing) (group opening closing) (GroupPlaces W) := by
  refine ⟨fun {us c d c' span} here run inside => ?_⟩
  cases us with
  | nil => exact (here.not_taken inside (Eats.eats run)).elim
  | cons u us =>
    have first := here.alike u List.mem_cons_self
    have left := here.next.left
    have right := here.next.right
    rw [on_group, here.left_head, left] at run
    rw [on_group, here.right_head, right]
    simp only [Option.map_some, Option.some.injEq, Option.getD_some] at run ⊢
    split at run
    · rename_i opened
      have opened' := (Token.eq_iff_of_sign first.sign (v := .symbol opening) (by simp)).mp opened
      rw [if_pos opened']
      split at run
      · cases run
      · rename_i last rest found
        cases run
        obtain ⟨ws, v, us', rfl, rfl, rfl, closed, found'⟩ :=
          closeGroup_steady here.next.alike found inside.rest
        have second := here.next.alike v (List.mem_append_right _ List.mem_cons_self)
        have closed' := (Token.eq_iff_of_sign second.sign (v := .symbol closing) (by simp)).mp closed
        rw [found']
        refine ⟨_, _, us', rfl, ?_, ?_⟩
        · have start := first.stop
          have stop := second.start
          rw [first.left, first.right, byteLength_bracket opened (.inl opens),
            byteLength_bracket opened' (.inl opens)] at start
          have ends := second.left
          have ends' := second.right
          rw [byteLength_bracket closed (.inr closes)] at ends
          rw [byteLength_bracket closed' (.inr closes)] at ends'
          refine ⟨start, ?_⟩
          have order := (List.pairwise_cons.mp here.ordered).1 v
            (List.mem_append_right _ List.mem_cons_self)
          have shorter : max v.1.stop u.1.start - 1 = v.1.start := by
            have own := first.left
            omega
          have shorter' : max v.2.stop u.2.start - 1 = v.2.start := by
            have own := first.right
            omega
          rw [shorter, shorter']
          exact stop
        · have split : ws ++ v :: us' = (ws ++ [v]) ++ us' := by simp
          have there := here.next
          rw [split] at there
          exact there.behind (W.floor_of_place second.stop)
    · cases run

theorem steady_groupText {opening closing : Symbol} (opens : opening.isOpen = true)
    (closes : closing.isClose = true) :
    W.Steady 0 (groupText opening closing) (groupText opening closing)
      fun a b => W.key a = W.key b :=
  (steady_group opens closes).bind fun _ _ places =>
    (steady_cut places.1 places.2).imp SameText.key

theorem steady_argumentText? :
    W.Steady 1 argumentText? argumentText? fun a b => a.map W.key = b.map W.key := by
  refine (steady_sees .lparen).bind fun found _ same => ?_
  subst same
  split
  · refine ((steady_groupText rfl rfl).weaken (Nat.zero_le 1)).bind fun a b same => .pure ?_
    exact congrArg some same
  · exact .pure rfl

/-- Pairs of offsets at the same places. -/
def BoundPlaces (W : Window) : List (Nat × Nat) → List (Nat × Nat) → Prop
  | [], [] => True
  | b :: bs, b' :: bs' =>
      W.Place b.1 b'.1 ∧ W.Place b.2 b'.2 ∧ BoundPlaces W bs bs'
  | _, _ => False

theorem callArguments_steady {depth i j : Nat} {bounds : List (Nat × Nat)} {last : Located}
    {rest : List Located} (alike : ∀ u ∈ us, W.Alike u) (place : W.Place i j)
    (found : callArguments depth i (us.map (·.1) ++ W.leftTail) = some (bounds, last, rest))
    (inside : W.Closed ∨ W.leftTail.length ≤ rest.length) :
    ∃ ws u us' bounds', us = ws ++ u :: us' ∧ last = u.1 ∧ rest = us'.map (·.1) ++ W.leftTail ∧
      BoundPlaces W bounds bounds' ∧
      callArguments depth j (us.map (·.2) ++ W.rightTail) =
        some (bounds', u.2, us'.map (·.2) ++ W.rightTail) := by
  induction us generalizing depth i j bounds with
  | nil =>
    obtain ⟨taken, whole, ends⟩ := callArguments_taken found
    rw [List.map_nil, List.nil_append] at whole
    rw [W.nothing_taken whole inside] at ends
    cases ends
  | cons u us ih =>
    have first := alike u List.mem_cons_self
    have closes := Token.eq_iff_of_sign first.sign (v := .symbol .rparen) nofun
    have comma := Token.eq_iff_of_sign first.sign (v := .symbol .comma) nofun
    have others : ∀ v ∈ us, W.Alike v := fun v member => alike v (List.mem_cons_of_mem _ member)
    simp only [List.map_cons, List.cons_append, callArguments, ← closes, ← comma] at found ⊢
    split at found
    · rename_i closed
      cases found
      rw [if_pos closed]
      exact ⟨[], u, us, [(j, u.2.start)], rfl, rfl, rfl, ⟨place, first.start, trivial⟩, rfl⟩
    · rename_i unclosed
      rw [if_neg unclosed]
      split at found
      · rename_i parted
        rw [if_pos parted]
        obtain ⟨⟨bounds, last', rest'⟩, later, same⟩ := Option.map_eq_some_iff.mp found
        cases same
        obtain ⟨ws, v, us', bounds', rfl, rfl, rfl, places, found'⟩ := ih others first.stop later
        rw [found']
        exact ⟨u :: ws, v, us', (j, u.2.start) :: bounds', rfl, rfl, rfl,
          ⟨place, first.start, places⟩, rfl⟩
      · rename_i other
        rw [if_neg other, ← Token.nest_of_sign first.sign]
        obtain ⟨ws, v, us', bounds', rfl, rfl, rfl, places, found'⟩ := ih others place found
        exact ⟨u :: ws, v, us', bounds', rfl, rfl, rfl, places, found'⟩

/-- Texts that the key does not tell apart, one by one. -/
def SameTexts (W : Window) : List String → List String → Prop
  | [], [] => True
  | x :: xs, y :: ys => SameText W.key x y ∧ SameTexts W xs ys
  | _, _ => False

theorem SameTexts.map_key {xs ys : List String} (same : SameTexts W xs ys) :
    xs.map W.key = ys.map W.key := by
  induction xs generalizing ys with
  | nil =>
    cases ys with
    | nil => rfl
    | cons y ys => exact same.elim
  | cons x xs ih =>
    cases ys with
    | nil => exact same.elim
    | cons y ys => rw [List.map_cons, List.map_cons, same.1.key, ih same.2]

theorem SameTexts.empty_iff {xs ys : List String} (same : SameTexts W xs ys) :
    xs = [""] ↔ ys = [""] := by
  rcases xs with _ | ⟨x, _ | ⟨x', xs⟩⟩ <;> rcases ys with _ | ⟨y, _ | ⟨y', ys⟩⟩
  · exact Iff.rfl
  · exact same.elim
  · exact same.elim
  · exact same.elim
  · simpa using same.1.empty
  · exact same.2.elim
  · exact same.elim
  · exact same.2.elim
  · simp

theorem mapM_cut_steady {k : Nat} {bounds bounds' : List (Nat × Nat)}
    (places : BoundPlaces W bounds bounds') :
    W.Steady k (bounds.mapM fun bound => cut bound.1 bound.2)
      (bounds'.mapM fun bound => cut bound.1 bound.2) (SameTexts W) := by
  induction bounds generalizing bounds' with
  | nil =>
    cases bounds' with
    | nil => exact .pure trivial
    | cons b' bs' => exact places.elim
  | cons b bs ih =>
    cases bounds' with
    | nil => exact places.elim
    | cons b' bs' =>
      have : ∀ bs : List (Nat × Nat), Onward (bs.mapM fun bound => cut bound.1 bound.2) := by
        intro bs
        refine .of_same fun run => ?_
        rw [on_mapM_cut run]
        exact ⟨rfl, rfl, rfl⟩
      rw [List.mapM_cons, List.mapM_cons]
      refine (steady_cut places.1 places.2.1).bind fun text text' same => ?_
      exact (ih places.2.2).bind fun texts texts' others => .pure ⟨same, others⟩

theorem steady_callArgs :
    W.Steady 0 callArgs callArgs fun as bs => as.map W.key = bs.map W.key := by
  refine ⟨fun {us c d c' args} here run inside => ?_⟩
  cases us with
  | nil => exact (here.not_taken inside (Eats.eats run)).elim
  | cons u us =>
    have first := here.alike u List.mem_cons_self
    have left := here.next.left
    have right := here.next.right
    rw [on_callArgs, here.left_head, left] at run
    rw [on_callArgs, here.right_head, right]
    simp only [Option.map_some, Option.some.injEq, Option.getD_some] at run ⊢
    split at run
    · rename_i opened
      have opened' := (Token.eq_iff_of_sign first.sign (v := .symbol .lparen) (by simp)).mp opened
      have start := first.stop
      rw [first.left, first.right, byteLength_bracket opened (.inl rfl),
        byteLength_bracket opened' (.inl rfl)] at start
      rw [if_pos opened']
      split at run
      · cases run
      · rename_i bounds last rest found
        cases cuts : (bounds.mapM fun bound => cut bound.1 bound.2).on W.left c.next with
        | error e =>
          rw [cuts] at run
          cases run
        | ok r =>
          obtain ⟨texts, mid⟩ := r
          have stays := on_mapM_cut cuts
          subst stays
          rw [cuts] at run
          cases run
          obtain ⟨ws, v, us', bounds', rfl, rfl, rfl, places, found'⟩ :=
            callArguments_steady here.next.alike start found inside.rest
          have still : W.Inside 0 c.next := ⟨.inr (by simp [left]; omega), inside.classes⟩
          obtain ⟨texts', d', _, cuts', same, _⟩ :=
            (mapM_cut_steady places).follow here.next cuts still
          have stays' := on_mapM_cut cuts'
          subst stays'
          rw [found']
          simp only [cuts', Except.bind]
          refine ⟨_, _, us', rfl, ?_, ?_⟩
          · by_cases empty : texts = [""]
            · rw [if_pos empty, if_pos (same.empty_iff.mp empty)]
            · rw [if_neg empty, if_neg fun other => empty (same.empty_iff.mpr other)]
              exact same.map_key
          · have split : ws ++ v :: us' = (ws ++ [v]) ++ us' := by simp
            have there := here.next
            rw [split] at there
            have second := here.next.alike v (List.mem_append_right _ List.mem_cons_self)
            exact there.behind (W.floor_of_place second.stop)
    · cases run

end Groups

section Passing

variable {W : Window} {us : List (Located × Located)} {passed passed' : Option Nat}

/-- Passing over tokens on the left ends before the last of the window, and so it does on the
right. -/
structure Follows (W : Window) (us : List (Located × Located)) (found : Source.Passed)
    (right : Source.Passed) : Prop where
  split : ∃ ws us', us = ws ++ us' ∧ found.2 = us'.map (·.1) ++ W.leftTail ∧
    right.2 = us'.map (·.2) ++ W.rightTail
  passed : W.Place? found.1 right.1

theorem Follows.here (same : W.Place? passed passed') :
    Follows W us (passed, us.map (·.1) ++ W.leftTail) (passed', us.map (·.2) ++ W.rightTail) :=
  ⟨⟨[], us, rfl, rfl, rfl⟩, same⟩

theorem Follows.cons {found right : Source.Passed} (follows : Follows W us found right)
    (u : Located × Located) : Follows W (u :: us) found right := by
  obtain ⟨⟨ws, us', rfl, left, right⟩, passed⟩ := follows
  exact ⟨⟨u :: ws, us', rfl, left, right⟩, passed⟩

/-- With nothing of the window left, the end of what is passed over lies outside. -/
theorem Passes.not_inside {found : Source.Passed} (passes : Passes W.leftTail passed found)
    (nonempty : W.leftTail ≠ []) (inside : W.Closed ∨ W.leftTail.length + 1 ≤ found.2.length) :
    False := by
  obtain ⟨taken, whole, _⟩ := passes
  rcases inside with closed | more
  · exact nonempty closed.1
  · rw [whole, List.length_append] at more
    omega

theorem passExpression_steady {depth : Nat} {found : Source.Passed} (alike : ∀ u ∈ us, W.Alike u)
    (same : W.Place? passed passed')
    (run : W.left.passExpression depth passed (us.map (·.1) ++ W.leftTail) = .ok found)
    (inside : W.Closed ∨ W.leftTail.length + 1 ≤ found.2.length) :
    ∃ right, W.right.passExpression depth passed' (us.map (·.2) ++ W.rightTail) = .ok right ∧
      Follows W us found right := by
  induction us generalizing depth passed passed' with
  | nil =>
    rw [List.map_nil, List.nil_append] at run
    refine ((passExpression_passes run).not_inside ?_ inside).elim
    intro empty
    rw [empty] at run
    cases run
  | cons u us ih =>
    have first := alike u List.mem_cons_self
    have semicolon := Token.eq_iff_of_sign first.sign (v := .symbol .semicolon) nofun
    have rbrace := Token.eq_iff_of_sign first.sign (v := .symbol .rbrace) nofun
    have later : W.left.passExpression (u.1.token.nest depth) (some u.1.stop)
        (us.map (·.1) ++ W.leftTail) = .ok found → ∃ right, W.right.passExpression
        (u.2.token.nest depth) (some u.2.stop) (us.map (·.2) ++ W.rightTail) = .ok right ∧
        Follows W (u :: us) found right := by
      intro run
      rw [Token.nest_of_sign first.sign] at run
      obtain ⟨right, run', follows⟩ := ih (fun v member => alike v (List.mem_cons_of_mem _ member))
        (Window.place?_some first.stop) run
      exact ⟨right, run', follows.cons u⟩
    simp only [List.map_cons, List.cons_append, Source.passExpression, ← semicolon, ← rbrace, bind,
      Except.bind, pure, Except.pure] at run ⊢
    split at run
    · rename_i outside
      rw [if_pos outside]
      split at run
      · rename_i stops
        rw [if_pos stops]
        cases run
        exact ⟨_, rfl, .here same⟩
      · rename_i goes
        rw [if_neg goes]
        cases breaks : W.left.breaksAfter passed u.1.start with
        | error e =>
          rw [breaks] at run
          cases run
        | ok b =>
          rw [Window.breaksAfter same first.start breaks]
          rw [breaks] at run
          cases b with
          | true =>
            cases run
            exact ⟨_, rfl, .here same⟩
          | false => exact later run
    · rename_i within
      rw [if_neg within]
      exact later run

/-- An initializer that takes no token ends outside all brackets. -/
theorem outside_of_nothing_passed {src : Source} {depth angles : Nat} {previous : Option Token}
    {t : Located} {ts : List Located} {found : Source.Passed}
    (run : src.passInitializer depth angles previous passed (t :: ts) = .ok found)
    (stays : found.2 = t :: ts) : depth = 0 ∧ angles = 0 := by
  refine Decidable.byContradiction fun within => ?_
  simp only [Source.passInitializer, if_neg within] at run
  obtain ⟨more, shorter, _⟩ := passInitializer_passes run
  have lengths := congrArg List.length shorter
  rw [stays, List.length_append, List.length_cons] at lengths
  omega

/-- Where the right initializer stops when the left one ends with the window. -/
def Stops (W : Window) (k : Nat) (us : List (Located × Located)) (passed : Option Nat) : Prop :=
  1 ≤ k ∨ (W.Breaks ∧ (us ≠ [] ∨ passed ≠ none))

theorem passInitializer_steady {k depth angles : Nat} {previous previous' : Option Token}
    {found : Source.Passed} (alike : ∀ u ∈ us, W.Alike u) (same : W.Place? passed passed')
    (before : previous.map Token.sign = previous'.map Token.sign) (stops : Stops W k us passed)
    (run : W.left.passInitializer depth angles previous passed (us.map (·.1) ++ W.leftTail) =
      .ok found)
    (inside : W.Closed ∨ W.leftTail.length + k ≤ found.2.length) :
    ∃ right, W.right.passInitializer depth angles previous' passed' (us.map (·.2) ++ W.rightTail) =
      .ok right ∧ Follows W us found right := by
  induction us generalizing depth angles previous previous' passed passed' with
  | nil =>
    rw [List.map_nil, List.nil_append] at run
    have passes := passInitializer_passes run
    have nonempty : W.leftTail ≠ [] := by
      intro empty
      rw [empty] at run
      cases run
    rcases stops with one | ⟨⟨t, ts, tail, breaks⟩, begun⟩
    · exact (passes.not_inside nonempty (inside.imp_right fun more => by omega)).elim
    · obtain ⟨taken, whole, ends⟩ := passes
      have none := W.nothing_taken whole (inside.imp_right fun more => by omega)
      subst none
      have outside : depth = 0 ∧ angles = 0 := by
        obtain ⟨u, us, left⟩ := List.exists_cons_of_ne_nil nonempty
        rw [left] at run whole
        exact outside_of_nothing_passed run whole.symm
      have known : passed ≠ none := begun.resolve_left fun nonempty => nonempty rfl
      cases passed with
      | none => exact absurd rfl known
      | some i =>
        cases passed' with
        | none => exact same.elim
        | some j =>
          refine ⟨(some j, W.rightTail), ?_, ?_⟩
          · rw [List.map_nil, List.nil_append, tail]
            simp only [Source.passInitializer, if_pos outside, bind, Except.bind, pure,
              Except.pure]
            split
            · rfl
            · rw [Source.breaksAfter, breaks same]
              rfl
          · refine ⟨⟨[], [], rfl, ?_, rfl⟩, ?_⟩
            · exact whole.symm
            · rw [ends]
              exact same
  | cons u us ih =>
    have first := alike u List.mem_cons_self
    have comma := Token.eq_iff_of_sign first.sign (v := .symbol .comma) (by simp)
    have semicolon := Token.eq_iff_of_sign first.sign (v := .symbol .semicolon) (by simp)
    have rbrace := Token.eq_iff_of_sign first.sign (v := .symbol .rbrace) (by simp)
    have later : W.left.passInitializer (u.1.token.nest depth)
        (u.1.token.nestAngles previous angles) (some u.1.token) (some u.1.stop)
        (us.map (·.1) ++ W.leftTail) = .ok found → ∃ right, W.right.passInitializer
        (u.2.token.nest depth) (u.2.token.nestAngles previous' angles) (some u.2.token)
        (some u.2.stop) (us.map (·.2) ++ W.rightTail) = .ok right ∧
        Follows W (u :: us) found right := by
      intro run
      have passes : (some u.1.token).map Token.sign = (some u.2.token).map Token.sign :=
        congrArg some first.sign
      rw [Token.nest_of_sign first.sign, Token.nestAngles_of_sign before first.sign] at run
      obtain ⟨right, run', follows⟩ := ih (fun v member => alike v (List.mem_cons_of_mem _ member))
        (Window.place?_some first.stop) passes
        (stops.imp_right fun quiet => ⟨quiet.1, .inr (Option.some_ne_none _)⟩) run
      exact ⟨right, run', follows.cons u⟩
    simp only [List.map_cons, List.cons_append, Source.passInitializer, ← comma, ← semicolon,
      ← rbrace, bind, Except.bind, pure, Except.pure] at run ⊢
    split at run
    · rename_i outside
      rw [if_pos outside]
      split at run
      · rename_i stops
        rw [if_pos stops]
        cases run
        exact ⟨_, rfl, .here same⟩
      · rename_i goes
        rw [if_neg goes]
        cases breaks : W.left.breaksAfter passed u.1.start with
        | error e =>
          rw [breaks] at run
          cases run
        | ok b =>
          rw [Window.breaksAfter same first.start breaks]
          rw [breaks] at run
          cases b with
          | true =>
            cases run
            exact ⟨_, rfl, .here same⟩
          | false => exact later run
    · rename_i within
      rw [if_neg within]
      exact later run

theorem passStatement_steady {depth : Nat} {found : Option Nat × Source.Passed}
    (alike : ∀ u ∈ us, W.Alike u) (same : W.Place? passed passed')
    (run : W.left.passStatement depth passed (us.map (·.1) ++ W.leftTail) = .ok found)
    (inside : W.Closed ∨ W.leftTail.length + 1 ≤ found.2.2.length) :
    ∃ stop right, W.right.passStatement depth passed' (us.map (·.2) ++ W.rightTail) =
      .ok (stop, right) ∧ W.Place? found.1 stop ∧ Follows W us found.2 right := by
  induction us generalizing depth passed passed' with
  | nil =>
    rw [List.map_nil, List.nil_append] at run
    refine ((passStatement_passes run).not_inside ?_ inside).elim
    intro empty
    rw [empty] at run
    cases run
  | cons u us ih =>
    have first := alike u List.mem_cons_self
    have semicolon := Token.eq_iff_of_sign first.sign (v := .symbol .semicolon) nofun
    have rbrace := Token.eq_iff_of_sign first.sign (v := .symbol .rbrace) nofun
    have nests := Token.nest_of_sign first.sign
    have others : ∀ v ∈ us, W.Alike v := fun v member => alike v (List.mem_cons_of_mem _ member)
    have place := Window.place?_some first.stop
    -- What follows the token on either side begins alike, unless the left run leaves the window.
    have heads : us ≠ [] ∨ W.Closed → Token.continuesBlock
        ((us.map (·.1) ++ W.leftTail).head?.map (·.token)) = Token.continuesBlock
        ((us.map (·.2) ++ W.rightTail).head?.map (·.token)) := by
      intro known
      refine Token.continuesBlock_of_sign ?_
      cases us with
      | cons v us => exact congrArg some (others v List.mem_cons_self).sign
      | nil =>
        obtain ⟨left, right⟩ := known.resolve_left fun nonempty => nonempty rfl
        rw [left, right]
        rfl
    have taken : (if u.1.token.nest depth = 0 ∧ u.1.token = .symbol .rbrace ∧
        (!Token.continuesBlock ((us.map (·.1) ++ W.leftTail).head?.map (·.token))) = true then
        Except.ok (some u.1.stop, some u.1.stop, us.map (·.1) ++ W.leftTail)
      else W.left.passStatement (u.1.token.nest depth) (some u.1.stop)
        (us.map (·.1) ++ W.leftTail)) = .ok found →
        ∃ stop right, (if u.1.token.nest depth = 0 ∧ u.1.token = .symbol .rbrace ∧
        (!Token.continuesBlock ((us.map (·.2) ++ W.rightTail).head?.map (·.token))) = true then
        Except.ok (some u.2.stop, some u.2.stop, us.map (·.2) ++ W.rightTail)
      else W.right.passStatement (u.1.token.nest depth) (some u.2.stop)
        (us.map (·.2) ++ W.rightTail)) = .ok (stop, right) ∧ W.Place? found.1 stop ∧
        Follows W (u :: us) found.2 right := by
      intro run
      have known : us ≠ [] ∨ W.Closed := by
        rcases us with _ | ⟨v, us⟩
        · right
          refine inside.resolve_right fun more => ?_
          rw [List.map_nil, List.nil_append] at run
          split at run
          · cases run
            exact absurd more (Nat.not_succ_le_self _)
          · obtain ⟨taken, whole, _⟩ := passStatement_passes run
            rw [whole, List.length_append] at more
            omega
        · exact .inl nofun
      rw [heads known] at run
      split at run
      · rename_i ends
        rw [if_pos ends]
        cases run
        exact ⟨_, _, rfl, place, (Follows.here place).cons u⟩
      · rename_i goes
        rw [if_neg goes]
        obtain ⟨stop, right, run', ends, follows⟩ := ih others place run
        exact ⟨stop, right, run', ends, follows.cons u⟩
    simp only [List.map_cons, List.cons_append, Source.passStatement, ← semicolon, ← rbrace,
      ← nests, bind, Except.bind, pure, Except.pure] at run ⊢
    split at run
    · rename_i outside
      rw [if_pos outside]
      split at run
      · rename_i ends
        rw [if_pos ends]
        cases run
        exact ⟨_, _, rfl, same, (Follows.here place).cons u⟩
      · rename_i goes
        rw [if_neg goes]
        split at run
        · rename_i ends
          rw [if_pos ends]
          cases run
          exact ⟨_, _, rfl, same, .here same⟩
        · rename_i on
          rw [if_neg on]
          cases breaks : W.left.breaksAfter passed u.1.start with
          | error e =>
            rw [breaks] at run
            cases run
          | ok b =>
            rw [Window.breaksAfter same first.start breaks]
            rw [breaks] at run
            cases b with
            | true =>
              cases run
              exact ⟨_, _, rfl, same, .here same⟩
            | false => exact taken run
    · rename_i within
      rw [if_neg within]
      exact taken run

theorem place_start {c d : Cursor} (here : W.At us c d) (known : us ≠ [] ∨ W.Inside 1 c) :
    W.Place ((c.rest.head?.map (·.start)).getD W.left.stop)
      ((d.rest.head?.map (·.start)).getD W.right.stop) := by
  cases us with
  | cons u us =>
    rw [here.left_head, here.right_head]
    exact (here.alike u List.mem_cons_self).start
  | nil =>
    have inside := known.resolve_left fun nonempty => nonempty rfl
    obtain ⟨j, d', us', same, place, _⟩ := steady_nextStart.follow here on_nextStart inside
    rw [on_nextStart] at same
    cases same
    exact place

theorem follow_passing {α : Type} {k : Nat} {f : Source → Cursor → Except ParseError α}
    {g : α → Source.Passed} {stop : α → Option Nat} {c d c' : Cursor} {text : String}
    (passes : ∀ {src c a}, f src c = .ok a → Passes c.rest none (g a))
    (follows : ∀ {a}, f W.left c = .ok a → (W.Closed ∨ W.leftTail.length + k ≤ (g a).2.length) →
      ∃ b, f W.right d = .ok b ∧ W.Place? (stop a) (stop b) ∧ Follows W us (g a) (g b))
    (here : W.At us c d) (known : us ≠ [] ∨ 1 ≤ k)
    (run : (do
      let start ← nextStart
      let src ← read
      let c ← get
      let a ← liftM (f src c)
      resume (g a)
      cut start ((stop a).getD start) : Parser String).on W.left c = .ok (text, c'))
    (inside : W.Inside k c') :
    ∃ text' d' us', (do
      let start ← nextStart
      let src ← read
      let c ← get
      let a ← liftM (f src c)
      resume (g a)
      cut start ((stop a).getD start) : Parser String).on W.right d = .ok (text', d') ∧
      W.key text = W.key text' ∧ W.At us' c' d' := by
  rw [on_bind_of_ok on_nextStart] at run
  obtain ⟨a, found, cuts⟩ := of_passing run
  have stays : c'.rest = (g a).2 ∧ c'.classes = c.classes := by
    rw [on_cut] at cuts
    split at cuts <;> cases cuts
    exact ⟨rfl, rfl⟩
  have within := inside.rest
  rw [stays.1] at within
  obtain ⟨b, found', ends, ⟨ws, us', whole, left, right⟩, passed⟩ := follows found within
  have start := place_start here (known.imp_right fun one => by
    obtain ⟨taken, before, _⟩ := passes found
    refine inside.earlier (n := 0) ?_ ?_ one
    · rw [before, List.length_append, stays.1]
      omega
    · exact stays.2 ▸ List.prefix_rfl)
  have there : W.At us' { c with rest := (g a).2, lastStop := (g a).1.getD c.lastStop }
      { d with rest := (g b).2, lastStop := (g b).1.getD d.lastStop } := by
    rw [whole] at here
    rw [left, right]
    refine here.behind ?_
    cases left : (g a).1 <;> cases right : (g b).1 <;> rw [left, right] at passed
    · exact here.lastStop
    · exact passed.elim
    · exact passed.elim
    · exact W.floor_of_place passed
  obtain ⟨text', d', us'', cuts', same, behind⟩ :=
    (steady_cut start (ends.getD start)).follow there cuts inside
  refine ⟨text', d', us'', ?_, same.key, behind⟩
  rw [on_bind_of_ok on_nextStart, on_bind_of_ok on_read, on_bind_of_ok on_get, found',
    on_bind_of_ok (on_liftExcept _), on_bind_of_ok (on_resume _), cuts']

theorem steady_expression :
    W.Steady 1 expression expression fun a b => W.key a = W.key b where
  follow here run inside := by
    refine follow_passing (g := id) passExpression_passes ?_ here (.inr (Nat.le_refl 1)) run inside
    intro found run inside
    rw [here.left] at run
    rw [here.right]
    obtain ⟨right, run', follows⟩ :=
      passExpression_steady here.alike Window.place?_none run inside
    exact ⟨right, run', follows.passed, follows⟩

theorem steady_rawStatement :
    W.Steady 1 rawStatement rawStatement fun a b => W.key a = W.key b where
  follow here run inside := by
    refine follow_passing (g := Prod.snd) passStatement_passes ?_ here (.inr (Nat.le_refl 1)) run
      inside
    intro found run inside
    rw [here.left] at run
    rw [here.right]
    obtain ⟨stop, right, run', ends, follows⟩ :=
      passStatement_steady here.alike Window.place?_none run inside
    exact ⟨(stop, right), run', ends, follows⟩

theorem follow_initializer {k : Nat} {c d c' : Cursor} {text : String} (here : W.At us c d)
    (known : 1 ≤ k ∨ (W.Breaks ∧ us ≠ [])) (run : initializer.on W.left c = .ok (text, c'))
    (inside : W.Inside k c') :
    ∃ text' d' us', initializer.on W.right d = .ok (text', d') ∧
      W.key text = W.key text' ∧ W.At us' c' d' := by
  refine follow_passing (g := id) passInitializer_passes ?_ here
    (known.symm.imp_left fun quiet => quiet.2) run inside
  intro found run inside
  rw [here.left] at run
  rw [here.right]
  have before : (none : Option Token).map Token.sign = (none : Option Token).map Token.sign := rfl
  obtain ⟨right, run', follows⟩ := passInitializer_steady
    here.alike Window.place?_none before (known.imp_right fun quiet => ⟨quiet.1, .inl quiet.2⟩) run inside
  exact ⟨right, run', follows.passed, follows⟩

end Passing

end Parser

end CreatorSynth
