import CreatorSynth.Proofs.Parser.Steady.Raw

/-! Names, annotations, modifiers, types and type parameters answer alike within a window. -/
namespace CreatorSynth
open Text

theorem Token.map_sign_iff {ts us vs : List Token} (same : ts.map sign = us.map sign)
    (solid : ∀ v ∈ vs, ∀ text, v ≠ .string text) : ts = vs ↔ us = vs := by
  induction vs generalizing ts us with
  | nil =>
    cases ts <;> cases us <;> simp at same ⊢
  | cons v vs ih =>
    cases ts with
    | nil =>
      cases us with
      | nil => exact Iff.rfl
      | cons u us => cases same
    | cons t ts =>
      cases us with
      | nil => cases same
      | cons u us =>
        obtain ⟨first, others⟩ := List.cons.inj same
        have head := eq_iff_of_sign first (solid v List.mem_cons_self)
        have tail := ih others fun w member => solid w (List.mem_cons_of_mem _ member)
        rw [List.cons.injEq, List.cons.injEq, head, tail]

namespace Parser

/-- Tokens ahead that are the same on either side, or begin with the same one and it does not depend
on the others what it is. -/
def Near (ts ts' : List Token) : Prop :=
  ts.map Token.sign = ts'.map Token.sign ∨
    ∃ t t' more more', ts = t :: more ∧ ts' = t' :: more' ∧ t.sign = t'.sign ∧ t.Calm

namespace Near

variable {ts ts' : List Token}

theorem head (near : Near ts ts') : ts.head?.map Token.sign = ts'.head?.map Token.sign := by
  rcases near with same | ⟨t, t', more, more', rfl, rfl, same, _⟩
  · cases ts <;> cases ts' <;> simp_all
  · exact congrArg some same

end Near

section Types

variable {W : Window} {k : Nat}

theorem steady_advance : W.Steady 1 advance advance Eq := by
  refine ⟨fun {us c d c' a} here run inside => ?_⟩
  have there : W.Inside 1 c :=
    inside.earlier (n := 0) (Onward.length_le run) (Onward.classes run) (Nat.le_refl 1)
  rw [on_advance] at run
  cases run
  rcases here.head_cases there with ⟨left, right⟩ | ⟨u, us', rfl⟩
  · have left' : c.next = c := by rw [Cursor.next, left]
    have right' : d.next = d := by rw [Cursor.next, right]
    refine ⟨_, d.next, us, on_advance, rfl, ?_⟩
    rw [left', right']
    exact here
  · exact ⟨_, d.next, us', on_advance, rfl, here.next⟩

theorem near_upcoming : W.Steady 1 (upcoming 2) (upcoming 2) Near := by
  refine Window.Steady.peeking (fun _ _ => on_upcoming 2) (fun _ _ => on_upcoming 2)
    fun {us c d} here inside => ?_
  rcases us with _ | ⟨u, _ | ⟨v, us⟩⟩
  · rcases here.head_cases inside with ⟨left, right⟩ | ⟨_, _, more⟩
    · rw [left, right]
      exact .inl rfl
    · cases more
  · rcases here.calm with closed | calm
    · rw [here.left, here.right, closed.1, closed.2]
      exact .inl (congrArg (· :: []) here.sign)
    · rw [here.left, here.right]
      exact .inr ⟨u.1.token, u.2.token, _, _, rfl, rfl, here.sign, calm u rfl⟩
  · have second := here.next.sign
    rw [here.left, here.right]
    refine .inl ?_
    simp only [List.map_cons, List.cons_append, List.take_succ_cons, List.take_zero, List.map_nil,
      here.sign, second]

/-- What two tokens stand for, the first of them a given one. -/
def pairAnswer {α : Type} (first : Token) (second : Token → Option α) : List Token → Option α
  | [t, u] => if t = first then second u else none
  | _ => none

/-- Both tokens are taken for an answer. -/
def afterPair {α : Type} (c : Cursor) : Option α → Option α × Cursor
  | some a => (some a, c.next.next)
  | none => (none, c)

section Pairs

variable {α : Type} {first : Token} {second : Token → Option α} {ts : List Token} {a : α}

theorem exists_of_pairAnswer (found : pairAnswer first second ts = some a) :
    ∃ u, ts = [first, u] ∧ second u = some a := by
  unfold pairAnswer at found
  split at found
  · rename_i t u
    split at found
    · rename_i same
      exact ⟨u, same ▸ rfl, found⟩
    · cases found
  · cases found

theorem pairAnswer_of_head (other : ts.head? ≠ some first) : pairAnswer first second ts = none := by
  cases found : pairAnswer first second ts with
  | none => rfl
  | some a =>
    obtain ⟨u, rfl, _⟩ := exists_of_pairAnswer found
    exact absurd rfl other

/-- A parser that takes two tokens or none may end with the window if the right tail does not begin
with the first of them, and no window ends between the two. -/
theorem steady_pair {p : Parser (Option α)}
    (shape : ∀ src c, p.on src c =
      .ok (afterPair c (pairAnswer first second ((c.rest.take 2).map (·.token)))))
    (alike : ∀ t u, t.sign = u.sign → second t = second u) (solid : ∀ text, first ≠ .string text)
    (unrest : ¬ first.Calm) (settled : W.Settled k first) : W.Steady k p p Eq := by
  refine ⟨fun {us c d c' a} here run inside => ?_⟩
  rw [shape] at run
  rw [shape]
  rcases us with _ | ⟨u, _ | ⟨v, us⟩⟩
  · cases found : pairAnswer first second ((c.rest.take 2).map (·.token)) with
    | some x =>
      rw [found] at run
      cases run
      obtain ⟨u, pair, _⟩ := exists_of_pairAnswer found
      have head : c.rest.head?.map (·.token) = some first := by
        rcases rest : c.rest with _ | ⟨t, more⟩ <;> rw [rest] at pair
        · cases pair
        · exact congrArg List.head? pair
      have onward : advance.on W.left c.next = .ok (⟨⟩, c.next.next) := on_advance
      exact (here.not_taken inside
        (Nat.lt_of_le_of_lt (Onward.length_le onward) (next_length_of_head head))).elim
    | none =>
      rw [found] at run
      cases run
      have right : d.rest = W.rightTail := here.right
      have other : ((d.rest.take 2).map (·.token)).head? ≠ some first := by
        rw [List.head?_map, List.head?_take, if_neg (by decide)]
        rcases settled with one | other
        · rcases here.head_cases (inside.weaken one) with ⟨_, none⟩ | ⟨_, _, more⟩
          · rw [none]
            exact nofun
          · cases more
        · intro same
          obtain ⟨t, head, token⟩ := Option.map_eq_some_iff.mp same
          exact other t (right ▸ head) token
      exact ⟨none, d, [], by rw [pairAnswer_of_head other]; rfl, rfl, here⟩
  · have here' : W.Closed ∨ u.1.token ≠ first :=
      here.calm.imp_right fun calm same => unrest (same ▸ calm u rfl)
    have apart := Token.eq_iff_of_sign here.sign solid
    have left : pairAnswer first second ((c.rest.take 2).map (·.token)) = none := by
      rw [here.left]
      rcases here' with closed | other
      · rw [closed.1]
        rfl
      · exact pairAnswer_of_head fun same => other (Option.some.inj same)
    have right : pairAnswer first second ((d.rest.take 2).map (·.token)) = none := by
      rw [here.right]
      rcases here' with closed | other
      · rw [closed.2]
        rfl
      · exact pairAnswer_of_head fun same => other (apart.mpr (Option.some.inj same))
    rw [left] at run
    rw [right]
    cases run
    exact ⟨none, d, [u], rfl, rfl, here⟩
  · have first' := Token.eq_iff_of_sign here.sign solid
    have same : pairAnswer first second ((c.rest.take 2).map (·.token)) =
        pairAnswer first second ((d.rest.take 2).map (·.token)) := by
      rw [here.left, here.right]
      simp only [List.map_cons, List.cons_append, List.take_succ_cons, List.take_zero, List.map_nil,
        pairAnswer, alike _ _ here.next.sign, first']
    rw [← same]
    cases found : pairAnswer first second ((c.rest.take 2).map (·.token)) with
    | some x =>
      rw [found] at run
      cases run
      exact ⟨some x, _, us, rfl, rfl, here.next.next⟩
    | none =>
      rw [found] at run
      cases run
      exact ⟨none, d, u :: v :: us, rfl, rfl, here⟩

end Pairs

/-- The text of a name. -/
def nameText? : Token → Option String
  | .name text => some text
  | _ => none

theorem on_dotName {src : Source} {c : Cursor} :
    dotName.on src c = .ok (afterPair c (pairAnswer (.symbol .dot) nameText?
      ((c.rest.take 2).map (·.token)))) := by
  rw [dotName, on_bind_of_ok (on_upcoming 2)]
  split
  · rename_i pair
    rw [on_bind_of_ok on_advance, on_bind_of_ok on_advance, on_pure, pair]
    rfl
  · rename_i other
    cases found : pairAnswer (.symbol .dot) nameText? ((c.rest.take 2).map (·.token)) with
    | none => rfl
    | some a =>
      obtain ⟨u, pair, named⟩ := exists_of_pairAnswer found
      unfold nameText? at named
      split at named
      · exact absurd pair (other _)
      · cases named

/-- A dotted name ends behind the window if the right tail begins with no dot. -/
theorem steady_dotName (settled : W.Settled k (.symbol .dot)) :
    W.Steady k dotName dotName Eq := by
  refine steady_pair (fun _ _ => on_dotName) (fun t u sign => ?_) (fun _ => nofun)
    (by simp [Token.Calm]) settled
  cases t <;> cases u <;> simp_all [Token.sign, nameText?]

theorem steady_qualifiedName (settled : W.Settled k (.symbol .dot)) :
    W.Steady k qualifiedName qualifiedName Eq := by
  refine (steady_identifier.weaken (Nat.zero_le k)).bind fun first _ same => ?_
  subst same
  exact (steady_many_same (steady_dotName settled)).bind fun names _ same => .pure (by rw [same])

theorem steady_annotation :
    W.Steady 1 annotation annotation fun a b => a.plain W.key = b.plain W.key := by
  refine steady_nextStart.bind fun i j place => ?_
  refine ((steady_expect .atSign).weaken (Nat.zero_le 1)).bind fun _ _ _ => ?_
  refine (steady_qualifiedName (W.settled _)).bind fun name _ same => ?_
  subst same
  refine steady_argumentText?.bind fun args args' same => ?_
  refine (steady_spanFrom i j).bind fun span span' _ => .pure ?_
  simp only [same, Annotation.plain]

/-- A modifier without the place of an annotation. -/
def plainModifier (key : String → String) : String ⊕ Annotation → String ⊕ Annotation :=
  Sum.map id (.plain key)

theorem modifierFrom_atSign {more : List Token}
    (other : more.head? ≠ some (.keyword .interfaceWord)) :
    modifierFrom (.symbol .atSign :: more) = do return some (.inr (← annotation)) := by
  rcases more with _ | ⟨t, more⟩
  · rfl
  · cases t with
    | keyword word => cases word <;> first | exact absurd rfl other | rfl
    | _ => rfl

theorem modifierFrom_name (word : String) (more : List Token) :
    modifierFrom (.name word :: more) = if isModifierKeyword word then do
      advance
      return some (.inl word)
    else return none :=
  rfl

theorem modifierFrom_other {t : Token} (more : List Token) (plain : t ≠ .symbol .atSign)
    (unnamed : ∀ word, t ≠ .name word) : modifierFrom (t :: more) = pure none := by
  cases t with
  | name word => exact absurd rfl (unnamed word)
  | symbol s => cases s <;> first | exact absurd rfl plain | rfl
  | _ => rfl

theorem steady_modifier :
    W.Steady 1 modifier modifier fun a b =>
      a.map (plainModifier W.key) = b.map (plainModifier W.key) := by
  refine near_upcoming.bind fun ts ts' near => ?_
  have heads := near.head
  rcases ts with _ | ⟨t, more⟩ <;> rcases ts' with _ | ⟨t', more'⟩
  · exact .pure rfl
  · cases heads
  · cases heads
  · have sign : t.sign = t'.sign := Option.some.inj heads
    have atSign := Token.eq_iff_of_sign sign (v := .symbol .atSign) nofun
    by_cases noted : t = .symbol .atSign
    · -- An at sign is not the last token looked at, so the token behind it is the same too.
      have seconds : more.head? = some (.keyword .interfaceWord) ↔
          more'.head? = some (.keyword .interfaceWord) := by
        rcases near with same | ⟨_, _, _, _, shape, _, _, calm⟩
        · have tails := (List.cons.inj same).2
          rcases more with _ | ⟨u, more⟩ <;> rcases more' with _ | ⟨u', more'⟩
          · exact Iff.rfl
          · cases tails
          · cases tails
          · have own := Token.eq_iff_of_sign (List.cons.inj tails).1
              (v := .keyword .interfaceWord) nofun
            rw [List.head?_cons, List.head?_cons, Option.some.injEq, Option.some.injEq, own]
        · rw [← (List.cons.inj shape).1, noted] at calm
          exact absurd calm (by simp [Token.Calm])
      rw [noted, atSign.mp noted]
      by_cases interface : more.head? = some (.keyword .interfaceWord)
      · obtain ⟨more, rfl⟩ := List.head?_eq_some_iff.mp interface
        obtain ⟨more', rfl⟩ := List.head?_eq_some_iff.mp (seconds.mp interface)
        exact .pure rfl
      · rw [modifierFrom_atSign interface, modifierFrom_atSign fun other =>
          interface (seconds.mpr other)]
        exact steady_annotation.bind fun a b same =>
          .pure (congrArg (fun a => some (Sum.inr a)) same)
    · have plain' : t' ≠ .symbol .atSign := fun other => noted (atSign.mpr other)
      by_cases named : ∃ word, t = .name word
      · obtain ⟨word, rfl⟩ := named
        rw [(Token.eq_iff_of_sign sign (v := .name word) nofun).mp rfl]
        rw [modifierFrom_name, modifierFrom_name]
        split
        · exact steady_advance.bind fun _ _ _ => .pure rfl
        · exact .pure rfl
      · have unnamed : ∀ word, t ≠ .name word := fun word same => named ⟨word, same⟩
        have unnamed' : ∀ word, t' ≠ .name word := fun word same =>
          unnamed word ((Token.eq_iff_of_sign sign (v := .name word) nofun).mpr same)
        rw [modifierFrom_other more noted unnamed, modifierFrom_other more' plain' unnamed']
        exact .pure rfl

theorem steady_modifiers :
    W.Steady 1 modifiers modifiers fun a b => a.plain W.key = b.plain W.key := by
  refine (steady_many steady_modifier).bind fun found found' same => .pure ?_
  have words : ∀ found : List (String ⊕ Annotation), found.filterMap Sum.getLeft? =
      (found.map (plainModifier W.key)).filterMap Sum.getLeft? := by
    intro found
    rw [List.filterMap_map]
    congr 1
    funext m
    cases m <;> rfl
  have notes : ∀ found : List (String ⊕ Annotation),
      (found.filterMap Sum.getRight?).map (·.plain W.key) =
      (found.map (plainModifier W.key)).filterMap Sum.getRight? := by
    intro found
    rw [List.filterMap_map, List.map_filterMap]
    congr 1
    funext m
    cases m <;> rfl
  rw [Modifiers.plain, Modifiers.plain, notes, notes, words, words found', same]

theorem on_dimension {src : Source} {c : Cursor} :
    dimension.on src c = .ok (afterPair c (pairAnswer (.symbol .lbracket)
      (fun t => if t = .symbol .rbracket then some () else none)
      ((c.rest.take 2).map (·.token)))) := by
  rw [dimension, on_bind_of_ok (on_upcoming 2), on_ite]
  split
  · rename_i pair
    rw [on_bind_of_ok on_advance, on_bind_of_ok on_advance, on_pure, pair]
    rfl
  · rename_i other
    cases found : pairAnswer (.symbol .lbracket)
        (fun t => if t = .symbol .rbracket then some () else none)
        ((c.rest.take 2).map (·.token)) with
    | none => rfl
    | some a =>
      obtain ⟨u, pair, closes⟩ := exists_of_pairAnswer found
      split at closes
      · rename_i same
        exact absurd (same ▸ pair) other
      · cases closes

theorem steady_dimension (settled : W.Settled k (.symbol .lbracket)) :
    W.Steady k dimension dimension Eq := by
  refine steady_pair (fun _ _ => on_dimension) (fun t u sign => ?_) (fun _ => nofun)
    (by simp [Token.Calm]) settled
  have same := Token.eq_iff_of_sign sign (v := .symbol .rbracket) nofun
  simp only [same]

theorem steady_dimensions (settled : W.Settled k (.symbol .lbracket)) :
    W.Steady k dimensions dimensions Eq :=
  (steady_many_same (steady_dimension settled)).bind fun pairs _ same => .pure (by rw [same])

section TypeRefs

variable {type type' : Parser TypeRef} [Onward type]

theorem steady_typeArg (types : W.Steady 1 type type' Eq) :
    W.Steady 1 (typeArg type) (typeArg type') Eq := by
  have extending : W.Steady 1 (do return .extending (← type) : Parser TypeArg)
      (do return .extending (← type')) Eq :=
    types.bind fun t _ same => .pure (by rw [same])
  refine (steady_accept (W.settled _)).bind fun question _ same => ?_
  subst same
  split
  · refine (steady_acceptKeyword (W.settled _)).bind fun upper _ same => ?_
    subst same
    split
    · exact types.bind fun t _ same => .pure (by rw [same])
    · refine (steady_acceptKeyword (W.settled _)).bind fun lower _ same => ?_
      subst same
      split
      · exact types.bind fun t _ same => .pure (by rw [same])
      · exact .pure rfl
  · exact types.bind fun t _ same => .pure (by rw [same])

theorem steady_typeArgs? (types : W.Steady 1 type type' Eq) :
    W.Steady 1 (typeArgs? type) (typeArgs? type') Eq := by
  refine (steady_accept (W.settled _)).bind fun opened _ same => ?_
  subst same
  split
  · refine (steady_accept (W.settled _)).bind fun closed _ same => ?_
    subst same
    split
    · exact .pure rfl
    · refine (steady_separated_same .comma (steady_typeArg types)).bind fun args _ same => ?_
      subst same
      exact ((steady_expect .rangle).weaken (Nat.zero_le 1)).bind fun _ _ _ => .pure rfl
  · exact .pure rfl

theorem steady_typeSegment (types : W.Steady 1 type type' Eq) :
    W.Steady 1 (typeSegment type) (typeSegment type') Eq := by
  refine (steady_dotName (W.settled _)).andThen (fun _ => by split <;> infer_instance)
    fun name _ same => ?_
  subst same
  split
  · exact (steady_typeArgs? types).bind fun args _ same => .pure (by rw [same])
  · exact .pure rfl

theorem steady_typeRefOver (types : W.Steady 1 type type' Eq) :
    W.Steady 1 (typeRefOver type) (typeRefOver type') Eq := by
  have notes : W.Steady 1
      (do
        if ← sees .atSign then return some (← annotation)
        return none : Parser (Option Annotation))
      (do
        if ← sees .atSign then return some (← annotation)
        return none) fun a b =>
      a.map (·.plain W.key) = b.map (·.plain W.key) := by
    refine (steady_sees .atSign).bind fun found _ same => ?_
    subst same
    split
    · exact steady_annotation.bind fun a b same => .pure (congrArg some same)
    · exact .pure rfl
  refine (steady_many notes).bind fun _ _ _ => ?_
  refine (steady_identifier.weaken (Nat.zero_le 1)).bind fun first _ same => ?_
  subst same
  refine (steady_typeArgs? types).bind fun args _ same => ?_
  subst same
  refine (steady_many_same (steady_typeSegment types)).bind fun others _ same => ?_
  subst same
  exact (steady_dimensions (W.settled _)).bind fun dims _ same => .pure (by rw [same])

end TypeRefs

theorem steady_typeRefWithin {m n : Nat} (le : m ≤ n) :
    W.Steady 1 (typeRefWithin m) (typeRefWithin n) Eq := by
  induction m generalizing n with
  | zero => exact .throw
  | succ m ih =>
    obtain ⟨n, rfl⟩ : ∃ n', n = n' + 1 := ⟨n - 1, by omega⟩
    exact steady_typeRefOver (ih (Nat.le_of_succ_le_succ le))

theorem steady_typeRef : W.Steady 1 typeRef typeRef Eq := by
  refine ⟨fun {us c d c' type} here run inside => ?_⟩
  rw [typeRef, on_bind_of_ok on_get] at run
  rw [typeRef, on_bind_of_ok on_get]
  exact (steady_typeRefWithin (Nat.add_le_add_right here.length_le 1)).follow here run inside

theorem steady_typeRefs (s : Symbol) : W.Steady 1 (separated s typeRef) (separated s typeRef) Eq :=
  steady_separated_same s steady_typeRef

theorem steady_bounds : W.Steady 1 bounds bounds Eq := by
  refine (steady_acceptKeyword (W.settled _)).bind fun found _ same => ?_
  subst same
  split
  · exact steady_typeRefs .ampersand
  · exact .pure rfl

theorem steady_typeParam : W.Steady 1 typeParam typeParam Eq := by
  refine steady_modifiers.bind fun _ _ _ => ?_
  refine (steady_identifier.weaken (Nat.zero_le 1)).bind fun name _ same => ?_
  subst same
  exact steady_bounds.bind fun bounds _ same => .pure (by rw [same])

theorem steady_typeParams : W.Steady 1 typeParams typeParams Eq := by
  refine (steady_accept (W.settled _)).bind fun opened _ same => ?_
  subst same
  split
  · refine (steady_separated_same .comma steady_typeParam).bind fun params _ same => ?_
    subst same
    exact ((steady_expect .rangle).weaken (Nat.zero_le 1)).bind fun _ _ _ => .pure rfl
  · exact .pure rfl

end Types

end Parser

end CreatorSynth
