import CreatorSynth.Token.Lexer

/-! Cutting a source loses nothing: every scanner splits its text into what it took and what
follows, so the texts of the pieces, one after another, are the source. -/
namespace CreatorSynth
open Text

namespace Cut

/-- The cut is one of that text. -/
def Of (cut : Cut) (cs : List Char) : Prop :=
  cut.1 ++ cut.2 = cs

theorem Of.cons {cut : Cut} {cs : List Char} (whole : cut.Of cs) (c : Char) :
    (cut.cons c).Of (c :: cs) := by
  simpa [Of, Cut.cons] using whole

theorem spanning_of (p : Char → Bool) (cs : List Char) : (spanning p cs).Of cs :=
  List.takeWhile_append_dropWhile

theorem Of.andThen {first : Cut} {cs : List Char} {next : List Char → Cut} (whole : first.Of cs)
    (more : ∀ ds, (next ds).Of ds) : (first.andThen next).Of cs := by
  have rest := more first.2
  simp only [Of, Cut.andThen, List.append_assoc] at *
  rw [rest, whole]

end Cut

theorem throughCommentEnd_of {cs : List Char} {cut : Cut} (found : throughCommentEnd cs = some cut) :
    cut.Of cs := by
  fun_induction throughCommentEnd cs generalizing cut with
  | case1 => simp at found
  | case2 rest => cases found; rfl
  | case3 c rest _ ih =>
    obtain ⟨inner, fromRest, rfl⟩ := Option.map_eq_some_iff.mp found
    exact (ih fromRest).cons c

theorem throughQuote_of {quote : Char} {cs : List Char} {cut : Cut}
    (found : throughQuote quote cs = some cut) : cut.Of cs := by
  fun_induction throughQuote quote cs generalizing cut with
  | case1 | case2 | case3 => simp at found
  | case4 c rest _ ih =>
    obtain ⟨inner, fromRest, rfl⟩ := Option.map_eq_some_iff.mp found
    exact ((ih fromRest).cons c).cons '\\'
  | case5 => cases found; rfl
  | case6 => simp at found
  | case7 c rest _ _ _ _ ih =>
    obtain ⟨inner, fromRest, rfl⟩ := Option.map_eq_some_iff.mp found
    exact (ih fromRest).cons c

theorem throughBlockEnd_of {cs : List Char} {cut : Cut} (found : throughBlockEnd cs = some cut) :
    cut.Of cs := by
  fun_induction throughBlockEnd cs generalizing cut with
  | case1 => simp at found
  | case2 rest => cases found; rfl
  | case3 c rest _ ih =>
    obtain ⟨inner, fromRest, rfl⟩ := Option.map_eq_some_iff.mp found
    exact (ih fromRest).cons c

theorem throughString_of {cs : List Char} {cut : Cut} (found : throughString cs = some cut) :
    cut.Of cs := by
  unfold throughString at found
  split at found
  · split at found
    · rename_i inner block
      cases found
      exact ((throughBlockEnd_of block).cons '"').cons '"'
    · exact throughQuote_of found
  · exact throughQuote_of found

theorem fraction_of (cs : List Char) : (fraction cs).Of cs := by
  unfold fraction
  split
  · split
    · exact ((Cut.spanning_of _ _).cons _).cons _
    · rfl
  · rfl

theorem exponent_of (cs : List Char) : (exponent cs).Of cs := by
  unfold exponent
  split
  · split
    · split
      · exact ((Cut.spanning_of _ _).cons _).cons _
      · split
        · exact (((Cut.spanning_of _ _).cons _).cons _).cons _
        · rfl
    · rfl
  · split <;> rfl
  · rfl

theorem optionally_of (set cs : List Char) : (optionally set cs).Of cs := by
  unfold optionally
  split
  · split <;> rfl
  · rfl

theorem throughDecimal_of (cs : List Char) : (throughDecimal cs).Of cs :=
  (((Cut.spanning_of _ _).andThen fraction_of).andThen exponent_of).andThen (optionally_of _)

theorem throughNumber_of (first : Char) (cs : List Char) : (throughNumber first cs).Of cs := by
  unfold throughNumber
  split
  · split
    · exact (((Cut.spanning_of _ _).andThen (optionally_of _)).cons _).cons _
    · exact throughDecimal_of _
  · exact throughDecimal_of _

theorem Symbol.text_ofChar? {c : Char} {s : Symbol} (found : ofChar? c = some s) :
    s.text.toList = [c] := by
  unfold ofChar? at found
  split at found <;> cases found <;> decide

namespace Piece

@[simp] theorem text_ofComment (text : List Char) : (ofComment text).text = text := by
  unfold ofComment
  split <;> simp [Piece.text, Token.text]

@[simp] theorem text_ofWord (text : List Char) : (ofWord text).text = text := by
  unfold ofWord
  split
  · rename_i word found
    have same := List.find?_some found
    simp only [beq_iff_eq] at same
    simp [Piece.text, Token.text, same]
  · simp [Piece.text, Token.text]

theorem text_afterSlash (cs : List Char) :
    (afterSlash cs).1.text ++ (afterSlash cs).2 = '/' :: cs := by
  unfold afterSlash
  split
  · simpa [Piece.text, Cut.Of] using Cut.spanning_of (· != '\n') _
  · split
    · rename_i cut found
      simpa [Cut.Of] using throughCommentEnd_of found
    · simp [Piece.text, Token.text]
  · simp [Piece.text, Token.text]

theorem text_afterDot (cs : List Char) : (afterDot cs).1.text ++ (afterDot cs).2 = '.' :: cs := by
  unfold afterDot
  split <;> simp [Piece.text, Token.text, Symbol.text]

/-- A piece and what follows it make up the text. -/
theorem text_append_of_next? {cs rest : List Char} {piece : Piece}
    (found : next? cs = some (piece, rest)) : piece.text ++ rest = cs := by
  unfold next? at found
  split at found
  · simp at found
  rename_i c cs
  split at found
  · cases found
    exact (Cut.spanning_of isGapChar cs).cons c
  split at found
  · cases found
    rw [text_ofWord]
    exact (Cut.spanning_of isNamePart cs).cons c
  split at found
  · cases found
    simpa [Piece.text, Token.text, Cut.Of] using (throughNumber_of c cs).cons c
  split at found
  · rename_i slash
    have law := text_afterSlash cs
    rwa [Option.some.inj found, ← slash] at law
  split at found
  · rename_i dot
    have law := text_afterDot cs
    rwa [Option.some.inj found, ← dot] at law
  split at found
  · obtain ⟨cut, through, same⟩ := Option.map_eq_some_iff.mp found
    cases same
    simpa [Piece.text, Token.text, Cut.Of, Cut.cons] using (throughString_of through).cons c
  split at found
  · obtain ⟨cut, through, same⟩ := Option.map_eq_some_iff.mp found
    cases same
    simpa [Piece.text, Token.text, Cut.Of, Cut.cons] using (throughQuote_of through).cons c
  split at found
  · rename_i s symbol
    cases found
    simp [Piece.text, Token.text, Symbol.text_ofChar? symbol]
  split at found
  · cases found
    simp [Piece.text, Token.text]
  · simp at found

end Piece
end CreatorSynth
