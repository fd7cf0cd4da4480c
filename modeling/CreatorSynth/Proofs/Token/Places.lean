import CreatorSynth.Proofs.Token.Standing
import CreatorSynth.Proofs.Parser.Run

/-! Where the tokens of a source stand: one behind the other, each at the place of its text. -/
namespace CreatorSynth
open Text

namespace Located

/-- The token stands in the text at its place. -/
structure StandsIn (text : List Char) (t : Located) : Prop where
  slice : slice? text t.start t.stop = some t.token.text.toList
  stop : t.stop = t.start + byteLength t.token.text.toList
  some : t.start < t.stop

/-- No token begins before the one in front of it ends. -/
def InOrder (ts : List Located) : Prop :=
  ts.Pairwise fun t u => t.stop ≤ u.start

theorem filter_append_of_starts {front rest : List Located} {offset : Nat}
    (before : ∀ t ∈ front, t.start < offset) (behind : ∀ t ∈ rest, offset ≤ t.start) :
    (front ++ rest).filter (fun t => decide (offset ≤ t.start)) = rest := by
  have none : front.filter (fun t => decide (offset ≤ t.start)) = [] :=
    List.filter_eq_nil_iff.mpr fun t member => by simpa using before t member
  have all : rest.filter (fun t => decide (offset ≤ t.start)) = rest :=
    List.filter_eq_self.mpr fun t member => decide_eq_true (behind t member)
  rw [List.filter_append, none, all, List.nil_append]

/-- The same token so many bytes further on. -/
def behind (n : Nat) (t : Located) : Located :=
  ⟨t.token, n + t.start, n + t.stop⟩

theorem filter_behind (n : Nat) (p : Token → Bool) (located : List Located) :
    (located.map (behind n)).filter (fun t => p t.token) =
      (located.filter fun t => p t.token).map (behind n) :=
  List.filter_map

end Located

open Located

theorem byteLength_pos {cs : List Char} (some : cs ≠ []) : 0 < byteLength cs := by
  cases cs with
  | nil => exact absurd rfl some
  | cons c cs =>
    have positive := c.utf8Size_pos
    simp only [byteLength]
    omega

namespace Piece

theorem text_ne_nil_of_allStand {pieces : List Piece} {rest : List Char}
    (stand : AllStand pieces rest) {piece : Piece} (member : piece ∈ pieces) : piece.text ≠ [] := by
  obtain ⟨more, stands⟩ := stand.of_mem member
  exact stands.text_ne_nil

theorem start_le_of_mem_locate {t : Located} {start : Nat} {pieces : List Piece}
    (member : t ∈ locate start pieces) : start ≤ t.start := by
  induction pieces generalizing start with
  | nil => cases member
  | cons piece pieces ih =>
    cases piece with
    | gap text => exact Nat.le_trans (Nat.le_add_right _ _) (ih member)
    | token u =>
      cases member with
      | head => exact Nat.le_refl _
      | tail _ member => exact Nat.le_trans (Nat.le_add_right _ _) (ih member)

theorem locate_behind (n start : Nat) (pieces : List Piece) :
    locate (n + start) pieces = (locate start pieces).map (Located.behind n) := by
  induction pieces generalizing start with
  | nil => rfl
  | cons piece pieces ih =>
    cases piece with
    | gap cs => rw [locate, locate, Nat.add_assoc, ih]
    | token t => rw [locate, locate, Nat.add_assoc, ih, List.map_cons, Located.behind]

theorem inOrder_locate (start : Nat) (pieces : List Piece) : InOrder (locate start pieces) := by
  induction pieces generalizing start with
  | nil => exact List.Pairwise.nil
  | cons piece pieces ih =>
    cases piece with
    | gap text => exact ih _
    | token t => exact List.Pairwise.cons (fun u member => start_le_of_mem_locate member) (ih _)

theorem standsIn_of_mem_locate {before : List Char} {pieces : List Piece} {t : Located}
    (some : ∀ piece ∈ pieces, piece.text ≠ [])
    (member : t ∈ locate (byteLength before) pieces) :
    t.StandsIn (before ++ pieces.flatMap text) := by
  induction pieces generalizing before with
  | nil => cases member
  | cons piece pieces ih =>
    have others : ∀ piece ∈ pieces, piece.text ≠ [] := fun piece member =>
      some piece (List.mem_cons_of_mem _ member)
    have further (behind : t ∈ locate (byteLength (before ++ piece.text)) pieces) :
        t.StandsIn (before ++ (piece :: pieces).flatMap text) := by
      have stands := ih others behind
      rwa [List.append_assoc] at stands
    cases piece with
    | gap cs => exact further (by rwa [byteLength_append])
    | token u =>
      cases member with
      | tail _ member => exact further (by rwa [byteLength_append])
      | head =>
        constructor
        · rw [List.flatMap_cons, ← List.append_assoc]
          exact slice?_append _ _ _
        · rfl
        · exact Nat.lt_add_of_pos_right (byteLength_pos (some _ List.mem_cons_self))

end Piece

/-- The tokens of a source stand in it in order. -/
theorem tokenize_places {text : String} {located : List Located}
    (tokens : tokenize text = .ok located) :
    InOrder located ∧ ∀ t ∈ located, t.StandsIn text.toList := by
  obtain ⟨pieces, whole, stand, rfl⟩ := Piece.exists_pieces_of_tokenize tokens
  refine ⟨Piece.inOrder_locate _ _, fun t member => ?_⟩
  have stands := @Piece.standsIn_of_mem_locate [] pieces t
    (fun piece => Piece.text_ne_nil_of_allStand stand) member
  rwa [List.nil_append, whole] at stands

namespace Parser

/-- The source that a text makes, given its tokens. -/
def sourceOf (text : String) (dialect : Dialect) (located : List Located) : Source where
  text := text.toList
  dialect := dialect
  docs := located.filter (·.token.isDoc)
  stop := ((located.filter (!·.token.isDoc)).getLast?.map (·.stop)).getD 0

theorem stop_pos_of_mem_docs {text : String} {dialect : Dialect} {located : List Located}
    (tokens : tokenize text = .ok located) :
    ∀ doc ∈ (sourceOf text dialect located).docs, 0 < doc.stop := by
  intro doc member
  have stands := (tokenize_places tokens).2 doc (List.mem_filter.mp member).1
  exact Nat.lt_of_le_of_lt (Nat.zero_le _) stands.some

/-- The cursor in front of a text, given its tokens. -/
def start (located : List Located) : Cursor :=
  ⟨located.filter (!·.token.isDoc), 0, 0, []⟩

theorem run_of_tokenize {α : Type} {text : String} {located : List Located}
    (tokens : tokenize text = .ok located) (p : Parser α) (dialect : Dialect) :
    p.run text dialect = p.on (sourceOf text dialect located) (start located) := by
  rw [run, tokens]
  rfl

theorem run_eq_ok {α : Type} {p : Parser α} {text : String} {dialect : Dialect}
    {found : α × Cursor} :
    p.run text dialect = .ok found ↔ ∃ located, tokenize text = .ok located ∧
      p.on (sourceOf text dialect located) (start located) = .ok found := by
  unfold run
  cases tokenize text with
  | error e => simp [bind, Except.bind]
  | ok located => exact ⟨fun found => ⟨located, rfl, found⟩, fun ⟨_, same, found⟩ => by
      cases same
      exact found⟩

end Parser

theorem parseUnit_eq_ok {text : String} {dialect : Dialect} {u : CompilationUnit} :
    parseUnit text dialect = .ok u ↔ ∃ located c', tokenize text = .ok located ∧
      Parser.unit.on (Parser.sourceOf text dialect located) (Parser.start located) =
        .ok (u, c') := by
  constructor
  · intro read
    cases run : Parser.unit.run text dialect with
    | error e =>
      rw [parseUnit, run] at read
      cases read
    | ok found =>
      rw [parseUnit, run] at read
      cases read
      obtain ⟨located, tokens, run⟩ := Parser.run_eq_ok.mp run
      exact ⟨located, found.2, tokens, run⟩
  · rintro ⟨located, c', tokens, run⟩
    rw [parseUnit, Parser.run_eq_ok.mpr ⟨located, tokens, run⟩]
    rfl

/-- A text that is read as a member holds one member, and no token behind it. -/
theorem parseMember_eq_ok {text className : String} {dialect : Dialect} {m : Member} :
    parseMember text className dialect = .ok m ↔ ∃ located c', tokenize text = .ok located ∧
      (Parser.member className).on (Parser.sourceOf text dialect located) (Parser.start located) =
        .ok ([m], c') ∧ c'.rest = [] := by
  constructor
  · intro read
    cases run : (Parser.member className).run text dialect with
    | error e =>
      rw [parseMember, run] at read
      cases read
    | ok found =>
      obtain ⟨members, c'⟩ := found
      obtain ⟨located, tokens, run'⟩ := Parser.run_eq_ok.mp run
      rw [parseMember, run] at read
      simp only [bind, Except.bind] at read
      split at read
      · cases read
      · rename_i ended
        cases read
        exact ⟨located, c', tokens, run', ended⟩
      · cases read
  · rintro ⟨located, c', tokens, run, ended⟩
    rw [parseMember, Parser.run_eq_ok.mpr ⟨located, tokens, run⟩]
    simp only [bind, Except.bind, ended]
    rfl

end CreatorSynth
