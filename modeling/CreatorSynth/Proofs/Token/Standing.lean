import CreatorSynth.Text.Blank
import CreatorSynth.Token.Lossless

/-! Texts put together from pieces are cut into these pieces again, as long as each piece ends where
the lexer would end it. -/
namespace CreatorSynth
open Text

/-- The code points of blanks. -/
def blankCodes : List Nat :=
  [9, 10, 11, 12, 13, 0x20, 0x85, 0xA0, 0x1680, 0x2000, 0x2001, 0x2002, 0x2003, 0x2004, 0x2005,
    0x2006, 0x2007, 0x2008, 0x2009, 0x200A, 0x2028, 0x2029, 0x202F, 0x205F, 0x3000]

theorem mem_blankCodes {c : Char} (blank : isBlank c = true) : c.toNat ∈ blankCodes := by
  simp [isBlank] at blank
  simp [blankCodes]
  omega

theorem isBlank_of_isNamePart {c : Char} (part : isNamePart c = true) : isBlank c = false := by
  have table : blankCodes.all (fun code => !isNamePart (Char.ofNat code)) = true := by
    decide +kernel
  cases blank : isBlank c with
  | false => rfl
  | true =>
    have apart := List.all_eq_true.mp table c.toNat (mem_blankCodes blank)
    rw [Char.ofNat_toNat, part] at apart
    cases apart

theorem isBlank_of_isGapChar {c : Char} (gap : isGapChar c = true) : isBlank c = true := by
  simp only [isGapChar, Bool.or_eq_true, beq_iff_eq, or_assoc] at gap
  rcases gap with rfl | rfl | rfl | rfl | rfl <;> decide

theorem isNamePart_of_isNameStart {c : Char} (start : isNameStart c = true) :
    isNamePart c = true := by
  simp only [isNameStart, isNamePart, Bool.or_eq_true] at *
  rcases start with (letter | low) | dollar
  · exact .inl (.inl (.inl letter))
  · exact .inl (.inr low)
  · exact .inr dollar

theorem isGapChar_of_isNamePart {c : Char} (part : isNamePart c = true) : isGapChar c = false := by
  cases gap : isGapChar c with
  | false => rfl
  | true =>
    have blank := isBlank_of_isGapChar gap
    rw [isBlank_of_isNamePart part] at blank
    cases blank

/-- A name as it stands in a source: a letter and what may follow it, and no keyword. -/
def IsName (s : String) : Prop :=
  (∃ c cs, s.toList = c :: cs ∧ isNameStart c = true ∧ cs.all isNamePart = true) ∧
    Keyword.ofText? s = none

namespace Piece

/-- The piece is cut off in front of that text. -/
def Stands (piece : Piece) (rest : List Char) : Prop :=
  next? (piece.text ++ rest) = some (piece, rest)

/-- Each piece is cut off in front of the texts of those behind it and the text behind all. -/
def AllStand : List Piece → (rest : List Char) → Prop
  | [], _ => True
  | piece :: pieces, rest => piece.Stands (pieces.flatMap text ++ rest) ∧ AllStand pieces rest

theorem allStand_append {pieces more : List Piece} {rest : List Char} :
    AllStand (pieces ++ more) rest ↔
      AllStand pieces (more.flatMap text ++ rest) ∧ AllStand more rest := by
  induction pieces with
  | nil => simp [AllStand]
  | cons piece pieces ih => simp [AllStand, ih, and_assoc]

theorem AllStand.of_mem {pieces : List Piece} {rest : List Char} (stand : AllStand pieces rest)
    {piece : Piece} (member : piece ∈ pieces) : ∃ more, piece.Stands more := by
  obtain ⟨front, back, rfl⟩ := List.append_of_mem member
  exact ⟨_, (allStand_append.mp stand).2.1⟩

theorem text_ne_nil_of_next? {cs rest : List Char} {piece : Piece}
    (found : next? cs = some (piece, rest)) : piece.text ≠ [] := by
  unfold next? at found
  split at found
  · cases found
  split at found
  · cases found
    simp [text, Cut.cons]
  split at found
  · cases found
    simp [Cut.cons]
  split at found
  · cases found
    simp [text, Token.text, Cut.cons]
  split at found
  · rw [Option.some.injEq] at found
    unfold afterSlash at found
    split at found
    · cases found
      simp [text]
    · split at found
      · cases found
        rw [text_ofComment]
        simp
      · cases found
        simp [text, Token.text]
    · cases found
      simp [text, Token.text]
  split at found
  · rw [Option.some.injEq] at found
    unfold afterDot at found
    split at found <;> cases found <;> simp [text, Token.text, Symbol.text]
  split at found
  · obtain ⟨cut, _, same⟩ := Option.map_eq_some_iff.mp found
    cases same
    simp [text, Token.text, Cut.cons]
  split at found
  · obtain ⟨cut, _, same⟩ := Option.map_eq_some_iff.mp found
    cases same
    simp [text, Token.text, Cut.cons]
  split at found
  · rename_i s symbol
    cases found
    simp [text, Token.text, Symbol.text_ofChar? symbol]
  split at found
  · cases found
    simp [text, Token.text]
  · cases found

theorem Stands.text_ne_nil {piece : Piece} {rest : List Char} (stands : piece.Stands rest) :
    piece.text ≠ [] :=
  text_ne_nil_of_next? stands

theorem eq_nil_of_allStand {pieces : List Piece} {rest : List Char} (stand : AllStand pieces rest)
    (empty : pieces.flatMap text = []) : pieces = [] := by
  cases pieces with
  | nil => rfl
  | cons piece pieces =>
    rw [List.flatMap_cons, List.append_eq_nil_iff] at empty
    exact absurd empty.1 stand.1.text_ne_nil

theorem allWithin_eq_ok_iff {pieces : List Piece} {bound before : Nat} {cs : List Char}
    (enough : cs.length ≤ bound) :
    allWithin bound before cs = .ok pieces ↔ pieces.flatMap text = cs ∧ AllStand pieces [] := by
  induction bound generalizing pieces before cs with
  | zero =>
    rw [List.eq_nil_of_length_eq_zero (Nat.le_zero.mp enough)]
    constructor
    · intro cuts
      cases cuts
      exact ⟨rfl, trivial⟩
    · rintro ⟨empty, stand⟩
      rw [eq_nil_of_allStand stand empty]
      rfl
  | succ bound ih =>
    cases cs with
    | nil =>
      constructor
      · intro cuts
        cases cuts
        exact ⟨rfl, trivial⟩
      · rintro ⟨empty, stand⟩
        rw [eq_nil_of_allStand stand empty]
        rfl
    | cons c cs =>
      cases found : next? (c :: cs) with
      | none =>
        simp only [allWithin, found]
        constructor
        · intro cuts
          cases cuts
        · rintro ⟨whole, stand⟩
          cases pieces with
          | nil => cases whole
          | cons piece pieces =>
            have cut := stand.1
            rw [List.append_nil, Stands, ← List.flatMap_cons, whole, found] at cut
            cases cut
      | some cut =>
        obtain ⟨piece, rest⟩ := cut
        have split := text_append_of_next? found
        have shorter : rest.length ≤ bound := by
          have length := congrArg List.length split
          have positive := List.length_pos_iff.mpr (text_ne_nil_of_next? found)
          simp only [List.length_append, List.length_cons] at length enough
          omega
        simp only [allWithin, found]
        constructor
        · intro cuts
          cases more : allWithin bound (before + byteLength piece.text) rest with
          | error e =>
            rw [more] at cuts
            cases cuts
          | ok others =>
            rw [more] at cuts
            cases cuts
            obtain ⟨whole, stand⟩ := (ih shorter).mp more
            refine ⟨?_, ?_, stand⟩
            · rw [List.flatMap_cons, whole, split]
            · rw [Stands, whole, List.append_nil, split, found]
        · rintro ⟨whole, stand⟩
          cases pieces with
          | nil => cases whole
          | cons first pieces =>
            have cut := stand.1
            rw [List.append_nil, Stands, ← List.flatMap_cons, whole, found, Option.some.injEq, Prod.mk.injEq] at cut
            obtain ⟨rfl, rfl⟩ := cut
            rw [(ih shorter).mpr ⟨rfl, stand.2⟩]
            rfl

/-- A text is cut into the pieces that make it up and are cut off one after another. -/
theorem all_eq_ok_iff {pieces : List Piece} {cs : List Char} :
    all cs = .ok pieces ↔ pieces.flatMap text = cs ∧ AllStand pieces [] :=
  allWithin_eq_ok_iff (Nat.le_refl _)

theorem exists_pieces_of_tokenize {source : String} {located : List Located}
    (tokens : tokenize source = .ok located) :
    ∃ pieces, pieces.flatMap text = source.toList ∧ AllStand pieces [] ∧
      located = locate 0 pieces := by
  unfold tokenize at tokens
  split at tokens
  · rename_i pieces cuts
    cases tokens
    obtain ⟨whole, stand⟩ := all_eq_ok_iff.mp cuts
    exact ⟨pieces, whole, stand, rfl⟩
  · cases tokens

theorem spanning_append {p : Char → Bool} {cs rest : List Char} (inside : cs.all p = true)
    (apart : rest.head?.any p = false) : Cut.spanning p (cs ++ rest) = (cs, rest) := by
  induction cs with
  | nil =>
    cases rest with
    | nil => rfl
    | cons c rest =>
      simp only [List.head?_cons, Option.any_some] at apart
      simp [Cut.spanning, apart]
  | cons c cs ih =>
    simp only [List.all_cons, Bool.and_eq_true] at inside
    have more := ih inside.2
    simp only [Cut.spanning, Prod.mk.injEq] at more
    simp [Cut.spanning, inside.1, more]

theorem next?_word {c : Char} {cs rest : List Char} (start : isNameStart c = true)
    (parts : cs.all isNamePart = true) (apart : rest.head?.any isNamePart = false) :
    next? (c :: cs ++ rest) = some (ofWord (c :: cs), rest) := by
  have notGap := isGapChar_of_isNamePart (isNamePart_of_isNameStart start)
  simp only [List.cons_append, next?, notGap, start, spanning_append parts apart, Cut.cons,
    Bool.false_eq_true, ↓reduceIte]

theorem stands_name {s : String} {rest : List Char} (name : IsName s)
    (apart : rest.head?.any isNamePart = false) : (token (.name s)).Stands rest := by
  obtain ⟨⟨c, cs, shape, start, parts⟩, ordinary⟩ := name
  rw [Stands, text, Token.text, shape, next?_word start parts apart, ofWord, ← shape,
    String.ofList_toList, ordinary]

theorem stands_keyword {word : Keyword} {rest : List Char}
    (apart : rest.head?.any isNamePart = false) : (token (.keyword word)).Stands rest := by
  have shape : ∃ c cs, word.text.toList = c :: cs ∧ isNameStart c = true ∧
      cs.all isNamePart = true ∧ ofWord (c :: cs) = token (.keyword word) := by
    cases word <;> exact ⟨_, _, rfl, by decide, by decide, by decide⟩
  obtain ⟨c, cs, shape, start, parts, same⟩ := shape
  rw [Stands, text, Token.text, shape, next?_word start parts apart, same]

theorem stands_symbol {s : Symbol} {rest : List Char}
    (apart : s = .dot → ¬['.', '.'] <+: rest) : (token (.symbol s)).Stands rest := by
  cases s with
  | dot =>
    have plain : afterDot rest = (token (.symbol .dot), rest) := by
      unfold afterDot
      split
      · rename_i more
        exact absurd ⟨more, rfl⟩ (apart rfl)
      · rfl
    change some (afterDot rest) = _
    rw [plain]
  | _ => rfl

theorem stands_gap {cs rest : List Char} (some : cs ≠ []) (blank : cs.all isGapChar = true)
    (apart : rest.head?.any isGapChar = false) : (gap cs).Stands rest := by
  cases cs with
  | nil => exact absurd rfl some
  | cons c cs =>
    simp only [List.all_cons, Bool.and_eq_true] at blank
    simp only [Stands, text, List.cons_append, next?, blank.1, spanning_append blank.2 apart,
      Cut.cons, ↓reduceIte]

theorem isName_of_next? {cs rest : List Char} {s : String}
    (found : next? cs = some (token (.name s), rest)) : IsName s := by
  unfold next? at found
  split at found
  · cases found
  rename_i c cs
  split at found
  · cases found
  split at found
  · rename_i start
    rw [Option.some.injEq, Prod.mk.injEq] at found
    have word := found.1
    unfold ofWord at word
    split at word
    · cases word
    · rename_i ordinary
      cases word
      refine ⟨⟨c, cs.takeWhile isNamePart, String.toList_ofList, start, ?_⟩, ordinary⟩
      exact List.all_takeWhile
  split at found
  · cases found
  split at found
  · rw [Option.some.injEq] at found
    unfold afterSlash at found
    split at found
    · cases found
    · split at found
      · rw [Prod.mk.injEq, ofComment] at found
        split at found <;> cases found.1
      · cases found
    · cases found
  split at found
  · rw [Option.some.injEq] at found
    unfold afterDot at found
    split at found <;> cases found
  split at found
  · obtain ⟨_, _, same⟩ := Option.map_eq_some_iff.mp found
    cases same
  split at found
  · obtain ⟨_, _, same⟩ := Option.map_eq_some_iff.mp found
    cases same
  split at found
  · cases found
  split at found <;> cases found

end Piece

/-- The lexer makes one token of the text, a name. -/
def LexesAsName (s : String) : Prop :=
  (tokenize s).toOption.map (·.map (·.token)) = some [.name s]

instance (s : String) : Decidable (LexesAsName s) :=
  inferInstanceAs (Decidable (_ = _))

theorem Piece.length_le_of_mem_locate {t : Located} {start : Nat} {pieces : List Piece}
    (member : t ∈ locate start pieces) :
    t.token.text.toList.length ≤ (pieces.flatMap text).length := by
  induction pieces generalizing start with
  | nil => cases member
  | cons piece pieces ih =>
    rw [List.flatMap_cons, List.length_append]
    cases piece with
    | gap g =>
      have shorter := ih member
      omega
    | token first =>
      rcases List.mem_cons.mp member with rfl | later
      · simp [text]
      · have shorter := ih later
        omega

theorem isName_of_lexesAsName {s : String} (lexes : LexesAsName s) : IsName s := by
  unfold LexesAsName tokenize at lexes
  split at lexes
  · rename_i pieces cuts
    obtain ⟨whole, stand⟩ := Piece.all_eq_ok_iff.mp cuts
    simp only [Except.toOption, Option.map_some, Option.some.injEq] at lexes
    cases pieces with
    | nil => cases lexes
    | cons piece pieces =>
      cases piece with
      | gap g =>
        -- The name is as long as the whole text, which leaves nothing for a gap.
        have member : Token.name s ∈ (Piece.locate 0 (.gap g :: pieces)).map (·.token) := by
          rw [lexes]
          exact List.mem_singleton_self _
        obtain ⟨t, inside, same⟩ := List.mem_map.mp member
        have later : t ∈ Piece.locate (0 + byteLength g) pieces := inside
        have shorter := Piece.length_le_of_mem_locate later
        have length := congrArg List.length whole
        have positive := List.length_pos_iff.mpr stand.1.text_ne_nil
        rw [same] at shorter
        simp only [List.flatMap_cons, List.length_append, Token.text] at length shorter
        omega
      | token t =>
        simp only [Piece.locate, List.map_cons, List.cons.injEq] at lexes
        have first := stand.1
        rw [lexes.1] at first
        exact Piece.isName_of_next? first
  · cases lexes

theorem IsName.lexesAsName {s : String} (name : IsName s) : LexesAsName s := by
  have stand : Piece.AllStand [.token (.name s)] [] := ⟨Piece.stands_name name rfl, trivial⟩
  have cuts : Piece.all s.toList = .ok [.token (.name s)] :=
    Piece.all_eq_ok_iff.mpr ⟨List.append_nil _, stand⟩
  rw [LexesAsName, tokenize, cuts]
  rfl

/-- The names are the texts that the lexer makes one name of. -/
theorem isName_iff_lexesAsName {s : String} : IsName s ↔ LexesAsName s :=
  ⟨IsName.lexesAsName, isName_of_lexesAsName⟩

instance (s : String) : Decidable (IsName s) :=
  decidable_of_iff _ isName_iff_lexesAsName.symm

end CreatorSynth
