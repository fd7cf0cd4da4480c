import CreatorSynth.Proofs.Decl.Plain
import CreatorSynth.Proofs.Parser.Progress

/-! Two sources that agree on a stretch of tokens, and parsers that answer alike as long as they stay
within it. A parser may look one token ahead: if it ends before the last token of the window, what
follows the window does not matter to it. -/
namespace CreatorSynth
open Text

/-- A token without the text of a string. -/
def Token.sign : Token → Token
  | string _ => string ""
  | t => t

theorem Token.eq_iff_of_sign {t u v : Token} (same : t.sign = u.sign)
    (solid : ∀ text, v ≠ .string text) : t = v ↔ u = v := by
  have back : ∀ {w : Token}, w.sign = v → w = v := by
    intro w signed
    cases w with
    | string text => exact absurd signed.symm (solid "")
    | _ => exact signed
  have own : v.sign = v := by
    cases v with
    | string text => exact absurd rfl (solid text)
    | _ => rfl
  constructor
  · rintro rfl
    exact back (same ▸ own)
  · rintro rfl
    exact back (same.trans own)

/-- No token that the one behind it decides about. -/
def Token.Calm (t : Token) : Prop :=
  t ∉ [.symbol .dot, .symbol .lbracket, .symbol .atSign, .symbol .equals]

/-- Texts that a key does not tell apart, both of them empty or none. -/
structure SameText (key : String → String) (a b : String) : Prop where
  key : key a = key b
  empty : a = "" ↔ b = ""

namespace Parser

/-- What two sources have in common around a stretch of tokens. -/
structure Window where
  left : Source
  right : Source
  /-- What follows the stretch on either side. -/
  leftTail : List Located
  rightTail : List Located
  /-- The same place on either side. -/
  Place : Nat → Nat → Prop
  /-- Documentation of the stretch begins behind both offsets or behind none. -/
  Floor : Nat → Nat → Prop
  /-- The classes read in front of the stretch. -/
  leftBase : List ClassDecl
  rightBase : List ClassDecl
  renumber : Nat → Nat
  /-- What is compared of a text. -/
  key : String → String
  /-- Classes of the stretch have smaller numbers on the left. -/
  limit : Nat
  dialect : left.dialect = right.dialect
  longer : leftTail.length ≤ rightTail.length
  ends : leftTail = [] → rightTail = [] → Place left.stop right.stop
  floor_of_place : ∀ {i j : Nat}, Place i j → Floor i j
  cut : ∀ {i j i' j' : Nat} {cs : List Char}, Place i j → Place i' j' →
    slice? left.text i (max i' i) = some cs →
    ∃ ds, slice? right.text j (max j' j) = some ds ∧
      SameText key (String.ofList (trim cs)) (String.ofList (trim ds))
  breaks : ∀ {i j i' j' : Nat} {b : Bool}, Place i j → Place i' j' →
    left.breaksBetween i i' = .ok b → right.breaksBetween j j' = .ok b
  doc : ∀ {c d : Cursor} {i j : Nat}, Floor c.docFloor d.docFloor → Place i j →
    (docAt left c i).map key = (docAt right d j).map key
  renumbered : ∀ {i : Nat}, leftBase.length ≤ i → i < limit →
    renumber i + leftBase.length = i + rightBase.length
  unequal : ∀ t ∈ rightTail.head?, t.token ≠ .symbol .equals

namespace Window

variable (W : Window)

/-- The same token on either side. -/
structure Alike (u : Located × Located) : Prop where
  sign : u.1.token.sign = u.2.token.sign
  start : W.Place u.1.start u.2.start
  stop : W.Place u.1.stop u.2.stop
  left : u.1.stop = u.1.start + byteLength u.1.token.text.toList
  right : u.2.stop = u.2.start + byteLength u.2.token.text.toList

/-- Nothing follows the stretch. -/
def Closed : Prop :=
  W.leftTail = [] ∧ W.rightTail = []

/-- Cursors at the same place of the stretch, with the rest of it. -/
structure At (us : List (Located × Located)) (c d : Cursor) : Prop where
  left : c.rest = us.map (·.1) ++ W.leftTail
  right : d.rest = us.map (·.2) ++ W.rightTail
  alike : ∀ u ∈ us, W.Alike u
  ordered : us.Pairwise fun u v => u.1.stop ≤ v.1.start ∧ u.2.stop ≤ v.2.start
  calm : W.Closed ∨ ∀ u ∈ us.getLast?, u.1.token.Calm
  lastStop : W.Floor c.lastStop d.lastStop
  docFloor : W.Floor c.docFloor d.docFloor
  classes : ∃ cs ds, c.classes = W.leftBase ++ cs ∧ d.classes = W.rightBase ++ ds ∧
    cs.map (ClassDecl.plain W.key W.renumber) = ds.map (ClassDecl.plain W.key id)

/-- The cursor is within the stretch, with some tokens of it ahead at least. -/
structure Inside (k : Nat) (c : Cursor) : Prop where
  rest : W.Closed ∨ W.leftTail.length + k ≤ c.rest.length
  classes : c.classes.length ≤ W.limit

/-- Where the left parser ends with so many tokens of the stretch ahead, the right parser does. -/
structure Steady {α β : Type} (k : Nat) (p : Parser α) (q : Parser β) (R : α → β → Prop) :
    Prop where
  follow : ∀ {us : List (Located × Located)} {c d c' : Cursor} {a : α}, W.At us c d →
    p.on W.left c = .ok (a, c') → W.Inside k c' →
    ∃ b d' us', q.on W.right d = .ok (b, d') ∧ R a b ∧ W.At us' c' d'

variable {W}

theorem Inside.weaken {k l : Nat} {c : Cursor} (inside : W.Inside l c) (le : k ≤ l) :
    W.Inside k c where
  rest := inside.rest.imp_right fun more => by omega
  classes := inside.classes

theorem Inside.earlier {k l n : Nat} {c c' : Cursor} (inside : W.Inside l c')
    (shorter : c'.rest.length + n ≤ c.rest.length) (classes : c.classes <+: c'.classes)
    (le : k ≤ l + n) : W.Inside k c where
  rest := inside.rest.imp_right fun more => by omega
  classes := Nat.le_trans classes.length_le inside.classes

namespace Steady

variable {α β γ δ : Type} {k l : Nat} {p : Parser α} {q : Parser γ} {f : α → Parser β}
  {g : γ → Parser δ} {R : α → γ → Prop} {S : β → δ → Prop}

theorem weaken (steady : W.Steady k p q R) (le : k ≤ l) : W.Steady l p q R where
  follow here run inside := steady.follow here run (inside.weaken le)

theorem imp {R' : α → γ → Prop} (steady : W.Steady k p q R) (more : ∀ {a c}, R a c → R' a c) :
    W.Steady k p q R' where
  follow here run inside := by
    obtain ⟨b, d', us', found, same, behind⟩ := steady.follow here run inside
    exact ⟨b, d', us', found, more same, behind⟩

/-- One parser after another. Tokens that the second one takes make up for what the first one has to
leave. -/
theorem bind_of {n : Nat} [∀ a, Onward (f a)] (first : W.Steady k p q R)
    (next : ∀ a c, R a c → W.Steady l (f a) (g c) S)
    (takes : ∀ {a c b c'}, (f a).on W.left c = .ok (b, c') → c'.rest.length + n ≤ c.rest.length)
    (le : k ≤ l + n) : W.Steady l (p >>= f) (q >>= g) S where
  follow here run inside := by
    obtain ⟨a, mid, begun, ended⟩ := on_bind_eq_ok.mp run
    obtain ⟨a', mid', us', begun', same, there⟩ :=
      first.follow here begun (inside.earlier (takes ended) (Onward.classes ended) le)
    obtain ⟨b', d', us'', ended', result, behind⟩ := (next a a' same).follow there ended inside
    exact ⟨b', d', us'', by rw [on_bind_of_ok begun', ended'], result, behind⟩

theorem bind [∀ a, Onward (f a)] (first : W.Steady k p q R)
    (next : ∀ a c, R a c → W.Steady k (f a) (g c) S) : W.Steady k (p >>= f) (q >>= g) S :=
  bind_of (n := 0) first next (fun run => Onward.length_le run) (Nat.le_add_right k 0)

theorem andThen (first : W.Steady k p q R) (onward : ∀ a, Onward (f a))
    (next : ∀ a c, R a c → W.Steady k (f a) (g c) S) : W.Steady k (p >>= f) (q >>= g) S :=
  first.bind next

/-- The second parser takes a token, so the first one need not end within the stretch by itself. -/
theorem before [∀ a, Onward (f a)] [∀ a, Eats W.left (f a)] (first : W.Steady 1 p q R)
    (next : ∀ a c, R a c → W.Steady 0 (f a) (g c) S) : W.Steady 0 (p >>= f) (q >>= g) S :=
  bind_of (n := 1) first next (fun run => Eats.eats run) (Nat.le_refl 1)

theorem ite {c d : Prop} [Decidable c] [Decidable d] {p p' : Parser α} {q q' : Parser γ}
    (same : c ↔ d) (yes : c → W.Steady k p q R) (no : ¬ c → W.Steady k p' q' R) :
    W.Steady k (if c then p else p') (if d then q else q') R := by
  by_cases holds : c
  · rw [if_pos holds, if_pos (same.mp holds)]
    exact yes holds
  · rw [if_neg holds, if_neg fun other => holds (same.mpr other)]
    exact no holds

theorem pure {a : α} {c : γ} (same : R a c) : W.Steady k (Pure.pure a) (Pure.pure c) R where
  follow here run _ := by
    cases run
    exact ⟨_, _, _, rfl, same, here⟩

/-- A parser that fails on the left may do anything on the right. -/
theorem throw {e : ParseError} {q : Parser γ} :
    W.Steady k (MonadExcept.throw e : Parser α) q R where
  follow _ run := by cases run

theorem peeking {p : Parser α} {q : Parser γ} {u : Source → Cursor → α} {v : Source → Cursor → γ}
    (left : ∀ src c, p.on src c = .ok (u src c, c)) (right : ∀ src c, q.on src c = .ok (v src c, c))
    (same : ∀ {us c d}, W.At us c d → W.Inside k c → R (u W.left c) (v W.right d)) :
    W.Steady k p q R where
  follow here run inside := by
    rw [left] at run
    cases run
    exact ⟨_, _, _, right W.right _, same here inside, here⟩

end Steady

end Window

end Parser

end CreatorSynth
