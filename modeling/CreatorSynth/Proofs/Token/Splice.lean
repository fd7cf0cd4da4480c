import Mathlib.Data.List.Infix
import CreatorSynth.Proofs.Token.Seam

/-! Sources put together from pieces of others. Blanks may be cut in several pieces, which makes no
difference to the tokens. -/
namespace CreatorSynth
open Text

/-- No three quotes stand in a row, so that no text block ends here. -/
def NoTriple (cs : List Char) : Prop :=
  ¬ ['"', '"', '"'] <:+: cs

instance (cs : List Char) : Decidable (NoTriple cs) :=
  inferInstanceAs (Decidable (¬ _))

theorem throughBlockEnd_eq_none_iff {cs : List Char} :
    throughBlockEnd cs = none ↔ NoTriple cs := by
  fun_induction throughBlockEnd cs with
  | case1 => exact ⟨fun _ => by decide, fun _ => rfl⟩
  | case2 rest =>
    exact ⟨by simp, fun none => absurd ⟨[], rest, rfl⟩ none⟩
  | case3 c rest other ih =>
    rw [Option.map_eq_none_iff, ih]
    refine ⟨fun none found => ?_, fun none found =>
      none (found.trans (List.suffix_cons c rest).isInfix)⟩
    rcases List.infix_cons_iff.mp found with ⟨behind, shape⟩ | inner
    · cases shape
      exact other behind rfl rfl
    · exact none inner

namespace Piece

/-- The piece is cut off in front of that text, or is some of the blanks there. -/
def Loose (piece : Piece) (rest : List Char) : Prop :=
  piece.Stands rest ∨ ∃ g, piece = gap g ∧ g.all isGapChar = true

/-- Each piece is cut off in front of those behind it, but for blanks. -/
def Fit : List Piece → (rest : List Char) → Prop
  | [], _ => True
  | piece :: pieces, rest => piece.Loose (pieces.flatMap text ++ rest) ∧ Fit pieces rest

theorem fit_append {pieces more : List Piece} {rest : List Char} :
    Fit (pieces ++ more) rest ↔ Fit pieces (more.flatMap text ++ rest) ∧ Fit more rest := by
  induction pieces with
  | nil => simp [Fit]
  | cons piece pieces ih => simp [Fit, ih, and_assoc]

theorem AllStand.fit {pieces : List Piece} {rest : List Char} (stand : AllStand pieces rest) :
    Fit pieces rest := by
  induction pieces with
  | nil => trivial
  | cons piece pieces ih => exact ⟨.inl stand.1, ih stand.2⟩

theorem Stands.blank {piece : Piece} {rest : List Char} (stands : piece.Stands rest)
    (begins : piece.text.head?.any isGapChar = true) :
    ∃ g, piece = gap g ∧ g.all isGapChar = true ∧ rest.head?.any isGapChar = false := by
  obtain ⟨c, t, head⟩ := List.exists_cons_of_ne_nil stands.text_ne_nil
  rw [head] at begins
  have gapped : isGapChar c = true := by simpa using begins
  unfold Stands at stands
  rw [head, List.cons_append] at stands
  simp only [next?, gapped, ↓reduceIte] at stands
  obtain ⟨cut, rfl⟩ := cut_of_text [c] (f := fun taken => gap (c :: taken)) (fun _ => rfl)
    (Option.some.inj stands) head
  obtain ⟨inside, stops⟩ := spanning_eq_iff.mp cut
  exact ⟨c :: t, rfl, by simp [gapped, inside], stops⟩

theorem locate_gap_append (start : Nat) (g h : List Char) (pieces : List Piece) :
    locate start (gap (g ++ h) :: pieces) = locate start (gap g :: gap h :: pieces) := by
  simp only [locate, byteLength_append, Nat.add_assoc]

/-- Pieces that fit are cut like pieces that stand, with the same tokens. -/
theorem exists_allStand_of_fit {pieces : List Piece} {rest : List Char} (fit : Fit pieces rest)
    (apart : rest.head?.any isGapChar = false) :
    ∃ others, others.flatMap text = pieces.flatMap text ∧ AllStand others rest ∧
      ∀ start, locate start others = locate start pieces := by
  induction pieces with
  | nil => exact ⟨[], rfl, trivial, fun _ => rfl⟩
  | cons piece pieces ih =>
    obtain ⟨others, whole, stand, located⟩ := ih fit.2
    have first := fit.1
    rw [← whole] at first
    rcases first with stands | ⟨g, rfl, blank⟩
    · refine ⟨piece :: others, ?_, ⟨stands, stand⟩, ?_⟩
      · rw [List.flatMap_cons, List.flatMap_cons, whole]
      · intro start
        cases piece with
        | gap g => exact located _
        | token t => simp only [locate, located]
    · by_cases empty : g = []
      · subst empty
        exact ⟨others, whole, stand, located⟩
      · by_cases more : (others.flatMap text ++ rest).head?.any isGapChar = true
        · cases others with
          | nil =>
            rw [List.flatMap_nil, List.nil_append, apart] at more
            cases more
          | cons other others =>
            obtain ⟨d, t, head⟩ := List.exists_cons_of_ne_nil stand.1.text_ne_nil
            have begins : other.text.head?.any isGapChar = true := by
              rw [List.flatMap_cons, head] at more
              rw [head]
              exact more
            obtain ⟨h, rfl, inside, stops⟩ := stand.1.blank begins
            refine ⟨gap (g ++ h) :: others, ?_, ⟨?_, stand.2⟩, ?_⟩
            · simp only [List.flatMap_cons, text, ← whole, List.append_assoc]
            · refine stands_gap ?_ ?_ stops
              · simp [empty]
              · rw [List.all_append, blank, inside]
                rfl
            · intro start
              rw [locate_gap_append]
              exact located _
        · refine ⟨gap g :: others, ?_, ⟨stands_gap empty blank ?_, stand⟩, fun _ => located _⟩
          · rw [List.flatMap_cons, List.flatMap_cons, whole]
          · simpa using more

/-- What begins a text is cut in one way. -/
theorem AllStand.exists_append {front pieces : List Piece} {rest : List Char}
    (stand : AllStand front rest) (all : AllStand pieces [])
    (whole : pieces.flatMap text = front.flatMap text ++ rest) :
    ∃ more, pieces = front ++ more ∧ more.flatMap text = rest := by
  induction front generalizing pieces with
  | nil => exact ⟨pieces, rfl, whole⟩
  | cons piece front ih =>
    cases pieces with
    | nil =>
      rw [List.flatMap_cons, List.append_assoc, eq_comm, List.flatMap_nil,
        List.append_eq_nil_iff] at whole
      exact absurd whole.1 stand.1.text_ne_nil
    | cons other pieces =>
      obtain ⟨first, behind⟩ := stand
      obtain ⟨first', behind'⟩ := all
      rw [List.flatMap_cons, List.flatMap_cons, List.append_assoc] at whole
      rw [Stands] at first first'
      rw [List.append_nil, whole, first] at first'
      obtain ⟨rfl, same⟩ := Prod.mk.inj (Option.some.inj first')
      obtain ⟨more, rfl, left⟩ := ih behind behind' same.symm
      exact ⟨more, rfl, left⟩

theorem locate_append (start : Nat) (pieces more : List Piece) :
    locate start (pieces ++ more) =
      locate start pieces ++ locate (start + byteLength (pieces.flatMap text)) more := by
  induction pieces generalizing start with
  | nil => simp [locate, byteLength]
  | cons piece pieces ih =>
    cases piece with
    | gap g => simp [locate, ih, text, byteLength_append, Nat.add_assoc]
    | token t => simp [locate, ih, text, byteLength_append, Nat.add_assoc]

theorem exists_locate_of_fit {front pieces : List Piece} {rest : List Char} (fit : Fit front rest)
    (apart : rest.head?.any isGapChar = false)
    (cuts : all (front.flatMap text ++ rest) = .ok pieces) :
    ∃ more, more.flatMap text = rest ∧
      ∀ start, locate start pieces = locate start (front ++ more) := by
  obtain ⟨others, same, stand, located⟩ := exists_allStand_of_fit fit apart
  obtain ⟨whole, all⟩ := all_eq_ok_iff.mp cuts
  rw [← same] at whole
  obtain ⟨more, rfl, left⟩ := stand.exists_append all whole
  refine ⟨more, left, fun start => ?_⟩
  rw [locate_append, locate_append, located, same]

theorem tokenize_of_fit {pieces : List Piece} (fit : Fit pieces []) :
    tokenize (String.ofList (pieces.flatMap text)) = .ok (locate 0 pieces) := by
  obtain ⟨others, whole, stand, located⟩ := exists_allStand_of_fit fit rfl
  have cuts : all (pieces.flatMap text) = .ok others := all_eq_ok_iff.mpr ⟨whole, stand⟩
  rw [tokenize, String.toList_ofList, cuts]
  exact congrArg Except.ok (located 0)

/-- No comment and no text block is left open in front of the end. -/
def Shut : List Piece → Prop
  | [] => True
  | piece :: pieces => piece.opens (pieces.flatMap text) = false ∧ Shut pieces

instance Shut.decidable : (pieces : List Piece) → Decidable (Shut pieces)
  | [] => .isTrue trivial
  | piece :: pieces =>
      match Shut.decidable pieces with
      | .isTrue shut =>
          if closed : piece.opens (pieces.flatMap text) = false then .isTrue ⟨closed, shut⟩
          else .isFalse fun both => closed both.1
      | .isFalse open' => .isFalse fun both => open' both.2

theorem Shut.right {pieces more : List Piece} (shut : Shut (pieces ++ more)) : Shut more := by
  induction pieces with
  | nil => exact shut
  | cons piece pieces ih => exact ih shut.2

/-- Pieces through a token stand in front of a seam if those do that it might close. -/
theorem AllStand.seam_of_opens {pieces : List Piece} {w w' : List Char} (stand : AllStand pieces w)
    (seam : Seam w') (ends : ∀ p ∈ pieces.getLast?, ∃ t, p = token t)
    (opened : ∀ front piece back, pieces = front ++ piece :: back →
      piece.opens (back.flatMap text) = true → piece.Stands (back.flatMap text ++ w')) :
    AllStand pieces w' := by
  induction pieces with
  | nil => trivial
  | cons piece pieces ih =>
    refine ⟨?_, ih stand.2 (fun p last => ?_) fun front inner back same =>
      opened (piece :: front) inner back (congrArg (piece :: ·) same)⟩
    · cases open' : piece.opens (pieces.flatMap text) with
      | true => exact opened [] piece pieces rfl open'
      | false =>
        refine stand.1.seam seam ?_ open'
        cases pieces with
        | nil => exact .inr (ends piece rfl)
        | cons next pieces =>
          left
          rw [List.flatMap_cons]
          intro empty
          exact stand.2.1.text_ne_nil (List.append_eq_nil_iff.mp empty).1
    · refine ends p ?_
      rw [List.getLast?_cons, Option.mem_def.mp last]
      rfl

/-- An empty string stands in front of a quote just if no text block ends behind it. -/
theorem stands_emptyString {rest : List Char} :
    (token (.string "\"\"")).Stands ('"' :: rest) ↔ NoTriple rest := by
  rw [← throughBlockEnd_eq_none_iff]
  have quotes : (token (.string "\"\"")).text ++ '"' :: rest = '"' :: '"' :: '"' :: rest := rfl
  rw [Stands, quotes, next?_quote, throughString]
  cases block : throughBlockEnd rest with
  | none =>
    simp [throughQuote_quote]
  | some cut =>
    have long := two_le_length_of_throughBlockEnd block
    refine ⟨fun same => ?_, by simp⟩
    have text := congrArg (·.1) (Option.some.inj same)
    simp only [Cut.cons, Piece.token.injEq, Token.string.injEq] at text
    have chars := congrArg String.toList text
    rw [String.toList_ofList] at chars
    have length := congrArg List.length chars
    simp at length

theorem opens_cases {piece : Piece} {rest : List Char} (opens : piece.opens rest = true) :
    (piece = token (.operator '/') ∧ ∃ cs, rest = '*' :: cs) ∨
      (piece = token (.string "\"\"") ∧ ∃ cs, rest = '"' :: cs) := by
  unfold Piece.opens at opens
  split at opens
  · exact .inl ⟨rfl, List.head?_eq_some_iff.mp (beq_iff_eq.mp opens)⟩
  · exact .inr ⟨rfl, List.head?_eq_some_iff.mp (beq_iff_eq.mp opens)⟩
  · cases opens

end Piece

end CreatorSynth
