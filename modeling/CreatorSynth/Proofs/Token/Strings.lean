import CreatorSynth.Proofs.Token.Separators

/-! String literals of one line as the lexer cuts them off: a quote, what may stand between two
quotes, and the other quote. Every text of this form is one token, and each string token has this
form unless it is a text block. -/
namespace CreatorSynth
open Text

variable {inner cs : List Char}

/-- What a string of one line encloses. A quote or a backslash stands behind a backslash only, and a
line feed not even there. -/
inductive Enclosed : List Char → Prop
  | nil : Enclosed []
  | plain {c : Char} {cs : List Char} (quote : c ≠ '"') (slash : c ≠ '\\') (feed : c ≠ '\n')
      (more : Enclosed cs) : Enclosed (c :: cs)
  | escaped {c : Char} {cs : List Char} (feed : c ≠ '\n') (more : Enclosed cs) :
      Enclosed ('\\' :: c :: cs)

theorem Enclosed.throughQuote (enclosed : Enclosed inner) (rest : List Char) :
    throughQuote '"' (inner ++ '"' :: rest) = some (inner ++ ['"'], rest) := by
  induction enclosed with
  | nil => exact throughQuote_quote rest
  | @plain c cs quote slash feed _ ih =>
    rw [List.cons_append, throughQuote_cons_of_ne slash, if_neg quote, if_neg feed, ih]
    rfl
  | escaped feed _ ih =>
    simp only [List.cons_append, CreatorSynth.throughQuote, if_neg feed, ih]
    rfl

theorem exists_enclosed {cut : Cut} (found : throughQuote '"' cs = some cut) :
    ∃ inner, Enclosed inner ∧ cut.1 = inner ++ ['"'] := by
  fun_induction throughQuote '"' cs generalizing cut with
  | case1 | case2 | case3 | case6 => cases found
  | case4 c rest feed ih =>
    obtain ⟨_, fromRest, rfl⟩ := Option.map_eq_some_iff.mp found
    obtain ⟨inner, enclosed, taken⟩ := ih fromRest
    refine ⟨'\\' :: c :: inner, .escaped feed enclosed, ?_⟩
    simp [Cut.cons, taken]
  | case5 rest _ _ =>
    cases found
    exact ⟨[], .nil, rfl⟩
  | case7 c rest last next quote feed ih =>
    obtain ⟨_, fromRest, rfl⟩ := Option.map_eq_some_iff.mp found
    obtain ⟨inner, enclosed, taken⟩ := ih fromRest
    refine ⟨c :: inner, .plain quote (ne_backslash last next) feed enclosed, ?_⟩
    simp [Cut.cons, taken]

/-- The text is a string literal of one line, and nothing else. -/
def IsString (text : String) : Prop :=
  ∃ inner, Enclosed inner ∧ text.toList = '"' :: (inner ++ ['"'])

def BeginsBlock (text : String) : Prop :=
  ['"', '"', '"'] <+: text.toList

namespace IsString

variable {text : String}

theorem not_beginsBlock (string : IsString text) : ¬ BeginsBlock text := by
  obtain ⟨inner, enclosed, shape⟩ := string
  rintro ⟨rest, begins⟩
  rw [shape] at begins
  cases enclosed with
  | nil => cases begins
  | plain quote => exact quote (List.cons.inj (List.cons.inj begins).2).1.symm
  | escaped => cases begins

theorem stands (string : IsString text) : (Piece.token (.string text)).Stands [] := by
  obtain ⟨inner, enclosed, shape⟩ := string
  have through : throughString (inner ++ ['"'] ++ []) = some (inner ++ ['"'], []) :=
    throughString_of_throughQuote (enclosed.throughQuote []) fun _ => nofun
  rw [Piece.Stands, Piece.text, Token.text, shape, List.cons_append, Piece.next?_quote, through,
    Option.map_some, ← shape, String.ofList_toList]

end IsString

namespace Piece

theorem throughString_of_next? {cs rest : List Char} {s : String}
    (found : next? cs = some (token (.string s), rest)) : ∃ behind cut,
      cs = '"' :: behind ∧ throughString behind = some cut ∧ s.toList = '"' :: cut.1 := by
  unfold next? at found
  split at found
  · cases found
  split at found
  · cases found
  split at found
  · obtain ⟨word, _⟩ := Prod.mk.inj (Option.some.inj found)
    unfold ofWord at word
    split at word <;> cases word
  split at found
  · cases found
  split at found
  · have slash := Option.some.inj found
    rcases afterSlash_cases slash with ⟨_, same, _⟩ | ⟨comment, same, whole⟩ | same
    · cases same
    · rcases ofComment_cases comment whole with ⟨plain, _⟩ | ⟨doc, _⟩
      · cases same.trans plain
      · cases same.trans doc
    · cases same
  split at found
  · have dot := Option.some.inj found
    unfold afterDot at dot
    split at dot <;> cases dot
  split at found
  · rename_i quote
    obtain ⟨cut, through, same⟩ := Option.map_eq_some_iff.mp found
    cases same
    exact ⟨_, cut, by rw [quote], through, by rw [String.toList_ofList, quote]; rfl⟩
  split at found
  · obtain ⟨_, _, same⟩ := Option.map_eq_some_iff.mp found
    cases same
  split at found
  · cases found
  · split at found <;> cases found

end Piece

/-- The string literals of one line are the texts that the lexer makes one string token of, text
blocks apart. -/
theorem isString_iff_tokenize {text : String} : IsString text ↔
    tokenize text = .ok [⟨.string text, 0, text.utf8ByteSize⟩] ∧ ¬ BeginsBlock text := by
  constructor
  · intro string
    refine ⟨?_, string.not_beginsBlock⟩
    have cuts : Piece.all text.toList = .ok [.token (.string text)] :=
      Piece.all_eq_ok_iff.mpr ⟨List.append_nil _, string.stands, trivial⟩
    rw [tokenize, cuts, ← byteLength_toList]
    simp [Piece.locate, Token.text]
  · rintro ⟨tokens, noBlock⟩
    obtain ⟨pieces, whole, stand, located⟩ := Piece.exists_pieces_of_tokenize tokens
    obtain ⟨gaps, more, rfl, _⟩ := Piece.exists_gaps_of_locate located.symm
    -- The token is as long as the text, which leaves nothing for pieces around it.
    have token := (Piece.allStand_append.mp stand).2.1
    have length := congrArg List.length whole
    simp only [List.flatMap_append, List.flatMap_cons, List.length_append, Piece.text,
      Token.text] at length
    have none : more.flatMap Piece.text = [] := List.length_eq_zero_iff.mp (by omega)
    rw [none, List.append_nil] at token
    obtain ⟨behind, cut, begins, through, shape⟩ := Piece.throughString_of_next? token
    unfold throughString at through
    split at through
    · rename_i rest
      have block : text.toList = '"' :: '"' :: '"' :: rest := (List.append_nil _).symm.trans begins
      exact absurd ⟨rest, block.symm⟩ noBlock
    · obtain ⟨inner, enclosed, taken⟩ := exists_enclosed through
      exact ⟨inner, enclosed, by rw [shape, taken]⟩

end CreatorSynth
