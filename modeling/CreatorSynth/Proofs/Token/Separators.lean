import CreatorSynth.Proofs.Text.Boundary
import CreatorSynth.Proofs.Token.Open
import CreatorSynth.Proofs.Token.Words

/-! What stands between the tokens of a source: white space and comments, and nothing else. How much
of them there is makes no difference to the tokens, as long as there is some: a single blank does. -/
namespace CreatorSynth
open Text

/-- A comment ends at the first star and slash behind its beginning. -/
def IsBlockComment (cs : List Char) : Prop :=
  ∃ body, cs = '/' :: '*' :: (body ++ ['*', '/']) ∧ Free ['*', '/'] (body ++ ['*'])

/-- A comment with a second star is documentation, but for the empty comment. -/
def IsDocumentation (cs : List Char) : Prop :=
  IsBlockComment cs ∧ ['/', '*', '*'] <+: cs ∧ cs ≠ ['/', '*', '*', '/']

/-- White space, comments to the end of their lines, and comments that are no documentation, in
front of a text. -/
inductive Separates (after : List Char) : List Char → Prop
  | nil : Separates after []
  | blank {c : Char} {cs : List Char} (blank : c ∈ [' ', '\t', '\n', '\r', '\x0c'])
      (more : Separates after cs) : Separates after (c :: cs)
  | line {body cs : List Char} (within : '\n' ∉ body) (ends : ∀ c ∈ (cs ++ after).head?, c = '\n')
      (more : Separates after cs) : Separates after ('/' :: '/' :: body ++ cs)
  | block {comment cs : List Char} (whole : IsBlockComment comment)
      (plain : ¬ IsDocumentation comment) (more : Separates after cs) :
      Separates after (comment ++ cs)

/-- The stretches of a source that its tokens leave out: one in front of each token, and one behind
the last. -/
def stretches : (start : Nat) → List Located → (stop : Nat) → List Span
  | start, [], stop => [⟨start, stop⟩]
  | start, t :: ts, stop => ⟨start, t.start⟩ :: stretches t.stop ts stop

/-- A stretch of a text that separates what stands on either side of it. -/
def Separated (cs : List Char) (s : Span) : Prop :=
  ∃ front between after, cs = front ++ between ++ after ∧ byteLength front = s.start ∧
    byteLength (front ++ between) = s.stop ∧ Separates after between

theorem Separates.blanks {blanks after cs : List Char} (blank : blanks.all isGapChar = true)
    (more : Separates after cs) : Separates after (blanks ++ cs) := by
  induction blanks with
  | nil => exact more
  | cons c blanks ih =>
    obtain ⟨first, others⟩ := Bool.and_eq_true_iff.mp blank
    apply Separates.blank
    · simpa [isGapChar, or_assoc] using first
    · exact ih others

theorem throughCommentEnd_shape {cs : List Char} {cut : Cut}
    (found : throughCommentEnd cs = some cut) :
    ∃ body, cut.1 = body ++ ['*', '/'] ∧ Free ['*', '/'] (body ++ ['*']) := by
  fun_induction throughCommentEnd cs generalizing cut with
  | case1 => cases found
  | case2 rest =>
    cases found
    exact ⟨[], rfl, (by decide : ¬ ['*', '/'] <:+: ['*'])⟩
  | case3 c rest other ih =>
    obtain ⟨inner, fromRest, rfl⟩ := Option.map_eq_some_iff.mp found
    obtain ⟨body, shape, free⟩ := ih fromRest
    refine ⟨c :: body, by rw [Cut.cons, shape]; rfl, ?_⟩
    intro closed
    rcases List.infix_cons_iff.mp closed with ⟨back, begins⟩ | later
    · -- The end would stand at the character passed over.
      have whole : inner.1 ++ inner.2 = rest := throughCommentEnd_of fromRest
      rw [shape] at whole
      cases body with
      | nil => cases begins
      | cons d body =>
        obtain ⟨star, begins⟩ := List.cons.inj begins
        obtain ⟨slash, _⟩ := List.cons.inj begins
        subst slash
        exact other _ star.symm whole.symm
    · exact free later

theorem isBlockComment_of_throughCommentEnd {cs : List Char} {cut : Cut}
    (found : throughCommentEnd cs = some cut) : IsBlockComment ('/' :: '*' :: cut.1) := by
  obtain ⟨body, shape, free⟩ := throughCommentEnd_shape found
  exact ⟨body, by rw [shape], free⟩

namespace Piece

theorem afterSlash_cases {cs rest : List Char} {piece : Piece}
    (found : afterSlash cs = (piece, rest)) :
    (∃ body, piece = gap ('/' :: '/' :: body) ∧ '\n' ∉ body ∧ ∀ c ∈ rest.head?, c = '\n') ∨
      (∃ comment, piece = ofComment comment ∧ IsBlockComment comment) ∨
      piece = token (.operator '/') := by
  unfold afterSlash at found
  split at found
  · rename_i line
    cases found
    refine .inl ⟨_, rfl, ?_, ?_⟩
    · intro feed
      simpa using List.all_eq_true.mp List.all_takeWhile _ feed
    · intro c head
      have stops := List.head?_dropWhile_not (· != '\n') line
      simp only [Cut.spanning, Option.mem_def] at head
      rw [head] at stops
      simpa using stops
  · split at found
    · rename_i cut through
      cases found
      exact .inr (.inl ⟨_, rfl, isBlockComment_of_throughCommentEnd through⟩)
    · cases found
      exact .inr (.inr rfl)
  · cases found
    exact .inr (.inr rfl)

theorem ofComment_cases (comment : List Char) (whole : IsBlockComment comment) :
    (ofComment comment = gap comment ∧ ¬ IsDocumentation comment) ∨
      (ofComment comment = token (.doc (String.ofList comment)) ∧ IsDocumentation comment) := by
  have kind : (['/', '*', '*'].isPrefixOf comment && comment != ['/', '*', '*', '/']) = true ↔
      IsDocumentation comment := by
    rw [Bool.and_eq_true, List.isPrefixOf_iff_prefix, bne_iff_ne, IsDocumentation]
    exact ⟨fun both => ⟨whole, both⟩, And.right⟩
  unfold ofComment
  split
  · rename_i doc
    exact .inr ⟨rfl, kind.mp doc⟩
  · rename_i plain
    exact .inl ⟨rfl, fun doc => plain (kind.mpr doc)⟩

/-- Where no name, literal, symbol or operator is cut off there is white space or a slash. -/
theorem next?_cases {cs rest : List Char} {piece : Piece} (found : next? cs = some (piece, rest))
    (skipped : (∃ g, piece = gap g) ∨ ∃ s, piece = token (.doc s)) :
    (∃ blanks, piece = gap blanks ∧ blanks.all isGapChar = true) ∨
      ∃ behind, afterSlash behind = (piece, rest) := by
  unfold next? at found
  split at found
  · cases found
  split at found
  · rename_i blank
    cases found
    exact .inl ⟨_, rfl, by simp [Cut.cons, Cut.spanning, blank, List.all_takeWhile]⟩
  split at found
  · obtain ⟨rfl, _⟩ := Prod.mk.inj (Option.some.inj found)
    unfold ofWord at skipped
    split at skipped <;> simp at skipped
  split at found
  · cases found
    simp at skipped
  split at found
  · exact .inr ⟨_, Option.some.inj found⟩
  split at found
  · have found := Option.some.inj found
    unfold afterDot at found
    split at found <;> cases found <;> simp at skipped
  split at found
  · obtain ⟨_, _, same⟩ := Option.map_eq_some_iff.mp found
    cases same
    simp at skipped
  split at found
  · obtain ⟨_, _, same⟩ := Option.map_eq_some_iff.mp found
    cases same
    simp at skipped
  split at found
  · cases found
    simp at skipped
  · split at found <;> cases found
    simp at skipped

theorem separates_of_next? {g cs after more : List Char}
    (found : next? cs = some (gap g, more ++ after)) (separates : Separates after more) :
    Separates after (g ++ more) := by
  rcases next?_cases found (.inl ⟨g, rfl⟩) with ⟨blanks, same, blank⟩ | ⟨behind, slash⟩
  · cases same
    exact separates.blanks blank
  · rcases afterSlash_cases slash with ⟨body, same, within, ends⟩ | ⟨comment, same, whole⟩ | same
    · cases same
      exact .line within ends separates
    · rcases ofComment_cases comment whole with ⟨plain, other⟩ | ⟨doc, _⟩
      · cases same.trans plain
        exact .block whole other separates
      · cases same.trans doc
    · cases same

theorem isDocumentation_of_next? {s : String} {cs rest : List Char}
    (found : next? cs = some (token (.doc s), rest)) : IsDocumentation s.toList := by
  rcases next?_cases found (.inr ⟨s, rfl⟩) with ⟨blanks, same, _⟩ | ⟨behind, slash⟩
  · cases same
  · rcases afterSlash_cases slash with ⟨body, same, _⟩ | ⟨comment, same, whole⟩ | same
    · cases same
    · rcases ofComment_cases comment whole with ⟨plain, _⟩ | ⟨doc, known⟩
      · cases same.trans plain
      · cases same.trans doc
        rwa [String.toList_ofList]
    · cases same

theorem separates_of_allStand {gaps : List Piece} {after : List Char} (stand : AllStand gaps after)
    (each : ∀ p ∈ gaps, ∃ g, p = gap g) : Separates after (gaps.flatMap text) := by
  induction gaps with
  | nil => exact .nil
  | cons p gaps ih =>
    obtain ⟨⟨g, rfl⟩, others⟩ := List.forall_mem_cons.mp each
    rw [List.flatMap_cons]
    exact separates_of_next? stand.1 (ih stand.2 others)

theorem exists_gaps_of_locate {start : Nat} {pieces : List Piece} {t : Located} {ts : List Located}
    (located : locate start pieces = t :: ts) : ∃ gaps more,
      pieces = gaps ++ token t.token :: more ∧ (∀ p ∈ gaps, ∃ g, p = gap g) ∧
      t.start = start + byteLength (gaps.flatMap text) ∧
      t.stop = t.start + byteLength t.token.text.toList ∧ locate t.stop more = ts := by
  induction pieces generalizing start with
  | nil => cases located
  | cons piece pieces ih =>
    cases piece with
    | token u =>
      cases located
      exact ⟨[], pieces, rfl, nofun, rfl, rfl, rfl⟩
    | gap g =>
      obtain ⟨gaps, more, rfl, each, starts, stops, behind⟩ := ih located
      refine ⟨gap g :: gaps, more, rfl, ?_, ?_, stops, behind⟩
      · exact List.forall_mem_cons.mpr ⟨⟨g, rfl⟩, each⟩
      · rw [starts, List.flatMap_cons, byteLength_append, text, Nat.add_assoc]

theorem gaps_of_locate_nil {start : Nat} {pieces : List Piece} (none : locate start pieces = []) :
    ∀ p ∈ pieces, ∃ g, p = gap g := by
  induction pieces generalizing start with
  | nil => nofun
  | cons piece pieces ih =>
    cases piece with
    | token t => cases none
    | gap g => exact List.forall_mem_cons.mpr ⟨⟨g, rfl⟩, ih none⟩

/-- By induction on the tokens: the gaps in front of the first one are the first stretch. -/
theorem separated_of_allStand {before : List Char} {pieces : List Piece} {located : List Located}
    (stand : AllStand pieces []) (places : locate (byteLength before) pieces = located) :
    ∀ s ∈ stretches (byteLength before) located (byteLength (before ++ pieces.flatMap text)),
      Separated (before ++ pieces.flatMap text) s := by
  induction located generalizing before pieces with
  | nil =>
    intro s member
    rw [stretches, List.mem_singleton] at member
    subst member
    refine ⟨before, pieces.flatMap text, [], by simp, rfl, rfl, ?_⟩
    exact separates_of_allStand stand (gaps_of_locate_nil places)
  | cons t ts ih =>
    obtain ⟨gaps, more, rfl, each, starts, stops, behind⟩ := exists_gaps_of_locate places
    obtain ⟨gapsStand, tokenStands, moreStand⟩ := allStand_append.mp stand
    rw [List.append_nil] at gapsStand
    let passed := before ++ gaps.flatMap text ++ t.token.text.toList
    have stop : byteLength passed = t.stop := by
      rw [stops, starts, byteLength_append, byteLength_append]
    have whole : before ++ (gaps ++ token t.token :: more).flatMap text =
        passed ++ more.flatMap text := by
      simp [passed, text]
    rw [whole, stretches]
    refine List.forall_mem_cons.mpr ⟨?_, ?_⟩
    · refine ⟨before, gaps.flatMap text, (token t.token :: more).flatMap text, ?_, rfl, ?_, ?_⟩
      · rw [← whole, List.flatMap_append, List.append_assoc]
      · rw [byteLength_append, starts]
      · exact separates_of_allStand gapsStand each
    · rw [← stop] at behind ⊢
      exact ih moreStand behind

end Piece

/-- The tokens of a source stand in it one behind the other, each with its text between two places
between characters, and what they leave out is white space and comments that are no documentation. -/
theorem tokenize_loses_nothing {source : String} {located : List Located}
    (tokens : tokenize source = .ok located) :
    (located.Pairwise fun t u => t.stop ≤ u.start) ∧
      (∀ t ∈ located, t.start < t.stop ∧ t.stop ≤ source.utf8ByteSize ∧
        Boundary source.toList t.start ∧ Boundary source.toList t.stop ∧
        slice? source.toList t.start t.stop = some t.token.text.toList) ∧
      (∀ t ∈ located, ∀ text, t.token = .doc text → IsDocumentation text.toList) ∧
      ∀ s ∈ stretches 0 located source.utf8ByteSize, Separated source.toList s := by
  obtain ⟨ordered, each⟩ := tokenize_places tokens
  obtain ⟨pieces, whole, stand, rfl⟩ := Piece.exists_pieces_of_tokenize tokens
  refine ⟨ordered, ?_, ?_, ?_⟩
  · intro t member
    have standing := each t member
    obtain ⟨starts, stops⟩ := boundaries_of_slice? standing.slice
    have inside := stops.le
    rw [byteLength_toList] at inside
    exact ⟨standing.some, inside, starts, stops, standing.slice⟩
  · intro t member text doc
    have among := Piece.mem_of_mem_locate member
    rw [doc] at among
    obtain ⟨rest, stands⟩ := stand.of_mem among
    exact Piece.isDocumentation_of_next? stands
  · have separated := @Piece.separated_of_allStand [] _ _ stand rfl
    rwa [List.nil_append, whole, byteLength_toList] at separated

/-- Comments of every kind between tokens, and a slash and a star that begin none. -/
def mixedSource : String :=
  "/** é */ a /**/= // b\n/* c */x/ *"

def mixedTokens : List Located :=
  [⟨.doc "/** é */", 0, 9⟩, ⟨.name "a", 10, 11⟩, ⟨.symbol .equals, 16, 17⟩, ⟨.name "x", 30, 31⟩,
    ⟨.operator '/', 31, 32⟩, ⟨.operator '*', 33, 34⟩]

theorem mixedSource_loses_nothing :
    tokenize mixedSource = .ok mixedTokens ∧
      stretches 0 mixedTokens mixedSource.utf8ByteSize =
        [⟨0, 0⟩, ⟨9, 10⟩, ⟨11, 16⟩, ⟨17, 30⟩, ⟨31, 31⟩, ⟨32, 33⟩, ⟨34, 34⟩] ∧
      IsDocumentation "/** é */".toList ∧ Separated mixedSource.toList ⟨17, 30⟩ := by
  have tokens : tokenize mixedSource = .ok mixedTokens :=
    eq_ok_of_toOption (by decide +kernel)
  have left : stretches 0 mixedTokens mixedSource.utf8ByteSize =
      [⟨0, 0⟩, ⟨9, 10⟩, ⟨11, 16⟩, ⟨17, 30⟩, ⟨31, 31⟩, ⟨32, 33⟩, ⟨34, 34⟩] := by decide
  obtain ⟨_, _, docs, between⟩ := tokenize_loses_nothing tokens
  refine ⟨tokens, left, docs _ List.mem_cons_self _ rfl, between _ ?_⟩
  rw [left]
  decide

namespace Piece

/-- A token stands in front of every seam, whatever stands behind it in the source. -/
theorem Stands.seam_of_token {t : Token} {w w' : List Char} (stands : (token t).Stands w)
    (seam : Seam w') : (token t).Stands w' := by
  have closed : (token t).opens [] = false := by
    unfold opens
    split <;> rfl
  exact Stands.seam (z := []) stands seam (.inr ⟨t, rfl⟩) closed

/-- Tokens with a blank between each two of them. -/
def spaced (ts : List Token) : List Piece :=
  (ts.map token).intersperse (gap [' '])

theorem flatMap_text_spaced (ts : List Token) :
    (spaced ts).flatMap text = (" ".intercalate (ts.map Token.text)).toList := by
  rw [String.toList_intercalate, List.intercalate]
  induction ts with
  | nil => rfl
  | cons t ts ih =>
    cases ts with
    | nil => simp [spaced, text]
    | cons u ts =>
      simp only [spaced, List.map_cons, List.intersperse_cons_cons, List.flatMap_cons,
        List.flatten_cons] at ih ⊢
      rw [ih]
      rfl

theorem map_token_locate_spaced (start : Nat) (ts : List Token) :
    (locate start (spaced ts)).map (·.token) = ts := by
  induction ts generalizing start with
  | nil => rfl
  | cons t ts ih =>
    cases ts with
    | nil => rfl
    | cons u ts =>
      simp only [spaced, List.map_cons, List.intersperse_cons_cons, locate] at ih ⊢
      rw [ih]

theorem fit_spaced {ts : List Token} (each : ∀ t ∈ ts, ∀ w, Seam w → (token t).Stands w) :
    Fit (spaced ts) [] := by
  induction ts with
  | nil => trivial
  | cons t ts ih =>
    obtain ⟨first, others⟩ := List.forall_mem_cons.mp each
    cases ts with
    | nil => exact ⟨.inl (first _ nofun), trivial⟩
    | cons u ts =>
      have more := ih others
      simp only [spaced, List.map_cons, List.intersperse_cons_cons] at more ⊢
      refine ⟨.inl (first _ ?_), .inr ⟨_, rfl, by decide⟩, more⟩
      intro c head
      cases head
      decide

end Piece

/-- The texts of the tokens of a source with a single blank between them have the same tokens. -/
theorem tokenize_respaced {source : String} {located : List Located}
    (tokens : tokenize source = .ok located) :
    (∀ t ∈ located, slice? source.toList t.start t.stop = some t.token.text.toList) ∧
      ∃ again, tokenize (" ".intercalate (located.map (·.token.text))) = .ok again ∧
        again.map (·.token) = located.map (·.token) := by
  refine ⟨fun t member => ((tokenize_places tokens).2 t member).slice, ?_⟩
  obtain ⟨pieces, whole, stand, rfl⟩ := Piece.exists_pieces_of_tokenize tokens
  generalize found : (Piece.locate 0 pieces) = located at *
  have fit : Piece.Fit (Piece.spaced (located.map (·.token))) [] := by
    apply Piece.fit_spaced
    intro t member w seam
    obtain ⟨u, inside, rfl⟩ := List.mem_map.mp member
    rw [← found] at inside
    obtain ⟨rest, stands⟩ := stand.of_mem (Piece.mem_of_mem_locate inside)
    exact stands.seam_of_token seam
  have cut := Piece.tokenize_of_fit fit
  rw [Piece.flatMap_text_spaced, String.ofList_toList, List.map_map] at cut
  exact ⟨_, cut, Piece.map_token_locate_spaced 0 _⟩

/-- Tokens without blanks between them, some of which would begin a comment or a text block if more
came behind them. -/
def crampedSource : String :=
  "/**d*/\"a\\\"\"\"\"/*'/*'1..."

theorem crampedSource_respaced : ∃ located again, tokenize crampedSource = .ok located ∧
    tokenize "/**d*/ \"a\\\"\" \"\" / * '/*' 1 ..." = .ok again ∧
    again.map (·.token) = located.map (·.token) := by
  have known : (tokenize crampedSource).toOption.map (·.map (·.token)) =
      some [.doc "/**d*/", .string "\"a\\\"\"", .string "\"\"", .operator '/', .operator '*',
        .character "'/*'", .number "1", .symbol .ellipsis] := by decide +kernel
  obtain ⟨located, found, same⟩ := Option.map_eq_some_iff.mp known
  have tokens := eq_ok_of_toOption found
  obtain ⟨_, again, cut, kept⟩ := tokenize_respaced tokens
  have texts : located.map (·.token.text) = ["/**d*/", "\"a\\\"\"", "\"\"", "/", "*", "'/*'", "1",
      "..."] := by
    change located.map (Token.text ∘ Located.token) = _
    rw [← List.map_map, same]
    rfl
  rw [texts] at cut
  exact ⟨located, again, tokens, cut, kept⟩

namespace Piece

/-- A gap at the end of a text is one in front of a line feed too: a comment that runs to the end of
its line ends there, and any other gap has ended. -/
theorem loose_feed {g w : List Char} (stands : (gap g).Stands []) :
    (gap g).Loose ('\n' :: w) := by
  rw [Stands, List.append_nil] at stands
  rcases next?_cases stands (.inl ⟨g, rfl⟩) with ⟨blanks, same, blank⟩ | ⟨behind, slash⟩
  · cases same
    exact .inr ⟨_, rfl, blank⟩
  · left
    unfold afterSlash at slash
    split at slash
    · rename_i line
      obtain ⟨same, _⟩ := Prod.mk.inj slash
      cases same
      have inside : (Cut.spanning (· != '\n') line).1.all (· != '\n') = true := List.all_takeWhile
      have stops : ('\n' :: w).head?.any (· != '\n') = false := rfl
      change some (afterSlash ('/' :: (_ ++ _))) = _
      rw [afterSlash, spanning_append inside stops]
    · split at slash
      · rename_i rest cut through
        obtain ⟨same, _⟩ := Prod.mk.inj slash
        have whole : '/' :: '*' :: cut.1 = g := by
          rw [← text_ofComment ('/' :: '*' :: cut.1), same, text]
        subst whole
        change some (afterSlash ('*' :: (cut.1 ++ '\n' :: w))) = _
        rw [afterSlash, throughCommentEnd_self through]
        exact congrArg (fun piece => some (piece, '\n' :: w)) same
      · cases slash
    · cases slash

/-- The pieces of a text fit in front of a line feed, unless what they leave open is closed behind
it. -/
theorem AllStand.fit_feed {pieces : List Piece} {w : List Char} (stand : AllStand pieces [])
    (free : ∀ closer, LeavesOpen closer pieces → Free closer ('\n' :: w)) :
    Fit pieces ('\n' :: w) := by
  have feed : Seam ('\n' :: w) := fun c head => by
    cases head
    rfl
  induction pieces with
  | nil => trivial
  | cons piece pieces ih =>
    obtain ⟨first, others⟩ := stand
    constructor
    · cases opens : piece.opens (pieces.flatMap text) with
      | true =>
        left
        apply first.of_opens opens feed
        exact fun closer known => free closer ⟨[], piece, pieces, rfl, opens, known⟩
      | false =>
        cases pieces with
        | cons next pieces =>
          left
          apply first.seam feed (.inl _) opens
          rw [List.flatMap_cons]
          intro empty
          exact others.1.text_ne_nil (List.append_eq_nil_iff.mp empty).1
        | nil =>
          cases piece with
          | gap g => exact loose_feed first
          | token t => exact .inl (first.seam_of_token feed)
    · apply ih others
      rintro closer ⟨front, inner, back, same, opened⟩
      exact free closer ⟨piece :: front, inner, back, congrArg (piece :: ·) same, opened⟩

end Piece

end CreatorSynth
