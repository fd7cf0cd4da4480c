import CreatorSynth.Proofs.Parser.Run
import CreatorSynth.Proofs.Token.Splice

/-! A parse in the middle of a text known piece by piece: which tokens are ahead, and what the basic
parsers answer there. -/
namespace CreatorSynth
open Text

namespace Piece

/-- The tokens a parser reads from pieces: all but documentation. -/
def tokens : List Piece → List Token
  | [] => []
  | gap _ :: pieces => tokens pieces
  | token t :: pieces => if t.isDoc then tokens pieces else t :: tokens pieces

@[simp] theorem tokens_gap (cs : List Char) (pieces : List Piece) :
    tokens (gap cs :: pieces) = tokens pieces :=
  rfl

@[simp] theorem tokens_name (name : String) (pieces : List Piece) :
    tokens (token (.name name) :: pieces) = .name name :: tokens pieces :=
  rfl

@[simp] theorem tokens_symbol (s : Symbol) (pieces : List Piece) :
    tokens (token (.symbol s) :: pieces) = .symbol s :: tokens pieces :=
  rfl

@[simp] theorem tokens_keyword (word : Keyword) (pieces : List Piece) :
    tokens (token (.keyword word) :: pieces) = .keyword word :: tokens pieces :=
  rfl

theorem tokens_token {t : Token} (pieces : List Piece) (plain : t.isDoc = false) :
    tokens (token t :: pieces) = t :: tokens pieces := by
  simp [tokens, plain]

theorem tokens_append (pieces more : List Piece) :
    tokens (pieces ++ more) = tokens pieces ++ tokens more := by
  induction pieces with
  | nil => rfl
  | cons piece pieces ih =>
    cases piece with
    | gap cs => exact ih
    | token t =>
      simp only [List.cons_append, tokens, ih]
      split <;> rfl

/-- These tokens with their places, when the pieces begin at byte `start`. -/
def ahead (start : Nat) (pieces : List Piece) : List Located :=
  (locate start pieces).filter (!·.token.isDoc)

@[simp] theorem ahead_nil (start : Nat) : ahead start [] = [] :=
  rfl

@[simp] theorem ahead_gap (start : Nat) (cs : List Char) (pieces : List Piece) :
    ahead start (gap cs :: pieces) = ahead (start + byteLength cs) pieces :=
  rfl

theorem ahead_token {t : Token} (start : Nat) (pieces : List Piece) (plain : t.isDoc = false) :
    ahead start (token t :: pieces) =
      ⟨t, start, start + byteLength t.text.toList⟩ ::
        ahead (start + byteLength t.text.toList) pieces := by
  simp [ahead, locate, plain]

@[simp] theorem ahead_name (start : Nat) (name : String) (pieces : List Piece) :
    ahead start (token (.name name) :: pieces) =
      ⟨.name name, start, start + byteLength name.toList⟩ ::
        ahead (start + byteLength name.toList) pieces :=
  rfl

@[simp] theorem ahead_symbol (start : Nat) (s : Symbol) (pieces : List Piece) :
    ahead start (token (.symbol s) :: pieces) =
      ⟨.symbol s, start, start + byteLength s.text.toList⟩ ::
        ahead (start + byteLength s.text.toList) pieces :=
  rfl

theorem map_token_ahead (start : Nat) (pieces : List Piece) :
    (ahead start pieces).map (·.token) = tokens pieces := by
  induction pieces generalizing start with
  | nil => rfl
  | cons piece pieces ih =>
    cases piece with
    | gap cs => exact ih _
    | token t =>
      cases doc : t.isDoc with
      | true => simpa [ahead, locate, tokens, doc] using ih _
      | false => simpa [ahead_token start pieces doc, tokens, doc] using ih _

section Split

variable {pieces : List Piece}

theorem ahead_append (start : Nat) (pieces more : List Piece) :
    ahead start (pieces ++ more) =
      ahead start pieces ++ ahead (start + byteLength (pieces.flatMap text)) more := by
  rw [ahead, locate_append, List.filter_append]
  rfl

/-- The first of the tokens ahead are those of the first pieces, through the last of them. -/
theorem exists_ahead {start : Nat} {taken rest : List Located}
    (split : ahead start pieces = taken ++ rest) :
    ∃ used more, pieces = used ++ more ∧ ahead start used = taken ∧
      ahead (start + byteLength (used.flatMap text)) more = rest ∧
      ∀ p ∈ used.getLast?, ∃ t, p = token t ∧ t.isDoc = false := by
  induction pieces generalizing start taken with
  | nil =>
    obtain ⟨rfl, rfl⟩ := List.append_eq_nil_iff.mp split.symm
    exact ⟨[], [], rfl, rfl, rfl, nofun⟩
  | cons piece pieces ih =>
    cases taken with
    | nil => exact ⟨[], _, rfl, rfl, split, nofun⟩
    | cons u taken =>
      have skip (skipped : ∀ more, ahead start (piece :: more) =
          ahead (start + byteLength piece.text) more) :
          ∃ used more, piece :: pieces = used ++ more ∧ ahead start used = u :: taken ∧
            ahead (start + byteLength (used.flatMap text)) more = rest ∧
            ∀ p ∈ used.getLast?, ∃ t, p = token t ∧ t.isDoc = false := by
        rw [skipped] at split
        obtain ⟨used, more, rfl, here, behind, last⟩ := ih split
        refine ⟨piece :: used, more, rfl, (skipped used).trans here, ?_, fun p final => last p ?_⟩
        · rw [List.flatMap_cons, byteLength_append, ← Nat.add_assoc]
          exact behind
        · cases used with
          | nil => cases here
          | cons q used => rwa [List.getLast?_cons_cons] at final
      cases piece with
      | gap g => exact skip fun _ => rfl
      | token t =>
        cases doc : t.isDoc with
        | true => exact skip fun more => by simp [ahead, locate, doc, text]
        | false =>
          rw [ahead_token start pieces doc, List.cons_append] at split
          obtain ⟨rfl, later⟩ := List.cons.inj split
          obtain ⟨used, more, rfl, here, behind, last⟩ := ih later
          refine ⟨token t :: used, more, rfl, ?_, ?_, fun p final => ?_⟩
          · rw [ahead_token start used doc, here]
          · rw [List.flatMap_cons, byteLength_append, ← Nat.add_assoc]
            exact behind
          · cases used with
            | nil => exact ⟨t, (Option.some.inj final).symm, doc⟩
            | cons q used => exact last p (by rwa [List.getLast?_cons_cons] at final)

theorem exists_token_ahead {t : Token} {ts : List Token} (head : tokens pieces = t :: ts) :
    ∃ front back, pieces = front ++ token t :: back ∧ tokens front = [] ∧ t.isDoc = false := by
  induction pieces with
  | nil => cases head
  | cons piece pieces ih =>
    have later (skipped : tokens (piece :: pieces) = tokens pieces)
        (alone : tokens [piece] = []) :
        ∃ front back, piece :: pieces = front ++ token t :: back ∧ tokens front = [] ∧
          t.isDoc = false := by
      obtain ⟨front, back, rfl, none, plain⟩ := ih (skipped.symm.trans head)
      refine ⟨piece :: front, back, rfl, ?_, plain⟩
      rw [← List.singleton_append, tokens_append, alone, none, List.append_nil]
    cases piece with
    | gap g => exact later rfl rfl
    | token u =>
      cases doc : u.isDoc with
      | true => exact later (by simp [tokens, doc]) (by simp [tokens, doc])
      | false =>
        rw [tokens_token _ doc] at head
        obtain ⟨rfl, _⟩ := List.cons.inj head
        exact ⟨[], pieces, rfl, rfl, doc⟩

theorem ahead_of_tokens_nil {front : List Piece} (start : Nat) (none : tokens front = []) :
    ahead start front = [] := by
  rw [← map_token_ahead start, List.map_eq_nil_iff] at none
  exact none

theorem isDoc_of_mem_ahead {start : Nat} {t : Located} (member : t ∈ ahead start pieces) :
    t.token.isDoc = false := by
  simpa using (List.mem_filter.mp member).2

theorem exists_ahead_token {start : Nat} {taken rest : List Located} {u : Located}
    (split : ahead start pieces = taken ++ u :: rest) :
    ∃ group more, pieces = group ++ token u.token :: more ∧ ahead start group = taken ∧
      u.start = start + byteLength (group.flatMap text) ∧
      u.stop = u.start + byteLength u.token.text.toList ∧ ahead u.stop more = rest := by
  rw [← List.singleton_append, ← List.append_assoc] at split
  obtain ⟨used, more, rfl, here, behind, last⟩ := exists_ahead split
  rcases List.eq_nil_or_concat used with rfl | ⟨group, piece, rfl⟩
  · exact absurd here.symm (by simp)
  obtain ⟨t, rfl, plain⟩ := last piece (by simp)
  rw [List.concat_eq_append, ahead_append, ahead_token _ _ plain, ahead_nil] at here
  obtain ⟨before, same⟩ := List.append_inj' here rfl
  cases same
  refine ⟨group, more, by simp, before, rfl, rfl, ?_⟩
  rw [← behind, List.concat_eq_append, List.flatMap_append, byteLength_append]
  simp [text, Nat.add_assoc]

/-- Tokens ahead, one after the other, are those of the pieces from the first through the last of
them. -/
theorem exists_stretch {start : Nat} {t : Located} {taken rest : List Located}
    (inside : t :: (taken ++ rest) <:+ ahead start pieces) :
    ∃ front used more, pieces = front ++ used ++ more ∧
      t.start = start + byteLength (front.flatMap text) ∧ ahead t.start used = t :: taken ∧
      (∀ p ∈ used.head?, ∃ t, p = token t ∧ t.isDoc = false) ∧
      ∀ p ∈ used.getLast?, ∃ t, p = token t ∧ t.isDoc = false := by
  obtain ⟨passed, split⟩ := inside
  have plain : t.token.isDoc = false :=
    isDoc_of_mem_ahead (split ▸ List.mem_append_right _ List.mem_cons_self)
  obtain ⟨front, behind, rfl, _, begins, stop, later⟩ := exists_ahead_token split.symm
  obtain ⟨used, more, rfl, here, _, last⟩ := exists_ahead later
  refine ⟨front, token t.token :: used, more, by simp, begins, ?_, fun p same => ?_,
    fun p same => ?_⟩
  · rw [ahead_token _ _ plain, ← stop, here]
  · exact ⟨t.token, (Option.some.inj same).symm, plain⟩
  · cases used with
    | nil => exact ⟨t.token, (Option.some.inj same).symm, plain⟩
    | cons q used => exact last p (by rwa [List.getLast?_cons_cons] at same)

end Split

end Piece

namespace Parser
open Piece

/-- The parse stands behind one part of the text and in front of the pieces of the other part. -/
structure At (src : Source) (c : Cursor) (before : List Char) (pieces : List Piece) : Prop where
  text : src.text = before ++ pieces.flatMap Piece.text
  rest : c.rest = ahead (byteLength before) pieces

namespace At

variable {src : Source} {c : Cursor} {before cs : List Char} {t : Token} {pieces : List Piece}

theorem gap (here : At src c before (.gap cs :: pieces)) : At src c (before ++ cs) pieces where
  text := by rw [here.text, List.flatMap_cons, List.append_assoc, Piece.text]
  rest := by rw [here.rest, byteLength_append, ahead_gap]

theorem rest_token (here : At src c before (.token t :: pieces)) (plain : t.isDoc = false) :
    c.rest = ⟨t, byteLength before, byteLength (before ++ t.text.toList)⟩ ::
      ahead (byteLength (before ++ t.text.toList)) pieces := by
  rw [here.rest, ahead_token _ _ plain, byteLength_append]

theorem next (here : At src c before (.token t :: pieces)) (plain : t.isDoc = false) :
    At src c.next (before ++ t.text.toList) pieces where
  text := by rw [here.text, List.flatMap_cons, List.append_assoc, Piece.text]
  rest := by rw [Cursor.next, here.rest_token plain]

theorem moved (here : At src c before pieces) {c' : Cursor} (same : c'.rest = c.rest) :
    At src c' before pieces :=
  ⟨here.text, same.trans here.rest⟩

theorem head (here : At src c before pieces) :
    c.rest.head?.map (·.token) = (tokens pieces).head? := by
  rw [here.rest, ← map_token_ahead (byteLength before), List.head?_map]

theorem length (here : At src c before pieces) : c.rest.length = (tokens pieces).length := by
  rw [here.rest, ← map_token_ahead (byteLength before), List.length_map]

theorem shorter {more : List Piece} {c' : Cursor} {before' : List Char}
    (here : At src c before (pieces ++ more)) (behind : At src c' before' more)
    (some : tokens pieces ≠ []) : c'.rest.length < c.rest.length := by
  have positive := List.length_pos_iff.mpr some
  rw [here.length, behind.length, tokens_append, List.length_append]
  omega

theorem upcoming (here : At src c before pieces) (n : Nat) :
    (Parser.upcoming n).on src c = .ok ((tokens pieces).take n, c) := by
  rw [on_upcoming, here.rest, List.map_take, map_token_ahead]

theorem nextStart (here : At src c before (.token t :: pieces)) (plain : t.isDoc = false) :
    Parser.nextStart.on src c = .ok (byteLength before, c) := by
  rw [on_nextStart, here.rest_token plain]
  rfl

theorem sees (here : At src c before pieces) (s : Symbol) :
    (Parser.sees s).on src c = .ok ((tokens pieces).head? == some (.symbol s), c) := by
  rw [on_sees, here.head]

theorem accept_of_head {s : Symbol} (here : At src c before (.token (.symbol s) :: pieces)) :
    (accept s).on src c = .ok (true, c.next) := by
  rw [on_accept, here.head]
  exact if_pos rfl

theorem accept_of_ne {s : Symbol} (here : At src c before pieces)
    (other : (tokens pieces).head? ≠ some (.symbol s)) : (accept s).on src c = .ok (false, c) := by
  rw [on_accept, here.head, if_neg other]

theorem expect {s : Symbol} (here : At src c before (.token (.symbol s) :: pieces)) :
    (Parser.expect s).on src c = .ok (⟨⟩, c.next) := by
  rw [on_expect, here.head]
  exact if_pos rfl

theorem identifier {s : String} (here : At src c before (.token (.name s) :: pieces)) :
    Parser.identifier.on src c = .ok (s, c.next) := by
  rw [on_identifier, here.head]
  rfl

end At

theorem on_cut_of_text {src : Source} {c : Cursor} {before inner after : List Char}
    (whole : src.text = before ++ inner ++ after) :
    (cut (byteLength before) (byteLength (before ++ inner))).on src c =
      .ok (String.ofList (trim inner), c) := by
  have order : max (byteLength (before ++ inner)) (byteLength before) =
      byteLength before + byteLength inner := by
    rw [byteLength_append]
    omega
  rw [on_cut, order, whole, slice?_append]

end Parser

end CreatorSynth
