import CreatorSynth.Proofs.Parser.Ahead
import CreatorSynth.Proofs.Token.Open

/-! Texts kept as they stand in a source: tokens with blanks between them. No token begins or ends
with white space, so such a text is what is left of a stretch of a source without the blanks at its
ends. -/
namespace CreatorSynth
open Text

section Solid

/-- No token holds such a character at its ends, unless it is a symbol. -/
structure Foreign (p : Char → Bool) : Prop where
  namePart : ∀ {c}, isNamePart c = true → p c = false
  digitPart : ∀ {c}, isDigitPart c = true → p c = false
  hexPart : ∀ {c}, isHexPart c = true → p c = false
  operator : ∀ {c}, isOperatorChar c = true → p c = false
  marks : ∀ c ∈ ".+-eExXlLfFdD\"'".toList, p c = false

theorem Foreign.marks_of_all {p : Char → Bool}
    (all : (".+-eExXlLfFdD\"'".toList.all fun c => !p c) = true) :
    ∀ c ∈ ".+-eExXlLfFdD\"'".toList, p c = false := by
  intro c member
  simpa using List.all_eq_true.mp all c member

theorem foreign_isBlank : Foreign isBlank := by
  have apart {q : Char → Bool} (table : blankCodes.all (fun code => !q (Char.ofNat code)) = true)
      {c : Char} (kind : q c = true) : isBlank c = false := by
    cases blank : isBlank c with
    | false => rfl
    | true =>
      have other := List.all_eq_true.mp table c.toNat (mem_blankCodes blank)
      rw [Char.ofNat_toNat, kind] at other
      cases other
  exact ⟨isBlank_of_isNamePart, apart (by decide), apart (by decide), apart (by decide),
    Foreign.marks_of_all (by decide)⟩

theorem foreign_rbrace : Foreign (· == '}') := by
  have apart {q : Char → Bool} (other : q '}' = false) {c : Char} (kind : q c = true) :
      (c == '}') = false := by
    rw [beq_eq_false_iff_ne]
    rintro rfl
    rw [other] at kind
    cases kind
  exact ⟨apart (by decide), apart (by decide), apart (by decide), apart (by decide),
    Foreign.marks_of_all (by decide)⟩

/-- No character of the text is such a one. -/
def Solid (p : Char → Bool) (cs : List Char) : Prop :=
  ∀ c ∈ cs, p c = false

variable {p : Char → Bool} {cs ds : List Char} {c : Char}

instance : Decidable (Solid p cs) :=
  List.decidableBAll (fun c => p c = false) cs

theorem Solid.nil : Solid p [] :=
  fun _ member => absurd member List.not_mem_nil

theorem Solid.append (first : Solid p cs) (second : Solid p ds) : Solid p (cs ++ ds) := by
  intro c member
  rcases List.mem_append.mp member with here | behind
  · exact first c here
  · exact second c behind

theorem Solid.cons (first : p c = false) (second : Solid p cs) : Solid p (c :: cs) :=
  List.forall_mem_cons.mpr ⟨first, second⟩

theorem solid_spanning {q : Char → Bool} (apart : ∀ {c}, q c = true → p c = false)
    (cs : List Char) : Solid p (Cut.spanning q cs).1 :=
  fun _ member => apart (List.all_eq_true.mp List.all_takeWhile _ member)

namespace Foreign

theorem digit (foreign : Foreign p) (digit : c.isDigit = true) : p c = false :=
  foreign.digitPart (by simp [isDigitPart, digit])

theorem solid_fraction (foreign : Foreign p) (cs : List Char) : Solid p (fraction cs).1 := by
  unfold fraction
  split
  · split
    · rename_i digit
      exact .cons (foreign.marks '.' (by decide))
        (.cons (foreign.digitPart digit) (solid_spanning foreign.digitPart _))
    · exact .nil
  · exact .nil

theorem solid_exponent (foreign : Foreign p) (cs : List Char) : Solid p (exponent cs).1 := by
  rcases cs with _ | ⟨e, _ | ⟨s, rest⟩⟩
  · exact .nil
  · exact .nil
  · rw [exponent_eq]
    split
    · rename_i begins
      obtain ⟨mark, sign⟩ := begins
      refine .cons ?_ (.cons ?_ (solid_spanning foreign.digit _))
      · rcases mark with rfl | rfl
        · exact foreign.marks 'e' (by decide)
        · exact foreign.marks 'E' (by decide)
      · rcases sign with digit | ⟨rfl | rfl, _⟩
        · exact foreign.digit digit
        · exact foreign.marks '+' (by decide)
        · exact foreign.marks '-' (by decide)
    · exact .nil

theorem solid_optionally {set : List Char} (solid : Solid p set) (cs : List Char) :
    Solid p (optionally set cs).1 := by
  cases cs with
  | nil => exact .nil
  | cons c cs =>
    rw [optionally]
    split
    · rename_i listed
      exact .cons (solid c (List.contains_iff_mem.mp listed)) .nil
    · exact .nil

theorem solid_throughNumber (foreign : Foreign p) (first : Char) (cs : List Char) :
    Solid p (throughNumber first cs).1 := by
  have suffix {set : List Char} (sub : set ⊆ ".+-eExXlLfFdD\"'".toList) (cs : List Char) :
      Solid p (optionally set cs).1 :=
    solid_optionally (fun c member => foreign.marks c (sub member)) cs
  by_cases hex : BeginsHex first cs
  · obtain ⟨x, h, rest, rfl, begins⟩ := hex
    rw [throughNumber_hex begins]
    have mark : p x = false := by
      rcases begins.2.1 with rfl | rfl
      · exact foreign.marks 'x' (by decide)
      · exact foreign.marks 'X' (by decide)
    exact .cons mark (.cons (foreign.hexPart begins.2.2)
      ((solid_spanning foreign.hexPart _).append (suffix (by decide) _)))
  · rw [throughNumber_decimal hex]
    exact (((solid_spanning foreign.digitPart _).append (foreign.solid_fraction _)).append
      (foreign.solid_exponent _)).append (suffix (by decide) _)

end Foreign

end Solid

section Trimming

/-- The text neither begins nor ends with such a character. -/
structure Bordered (p : Char → Bool) (cs : List Char) : Prop where
  first : ∀ c ∈ cs.head?, p c = false
  last : ∀ c ∈ cs.getLast?, p c = false

/-- The text neither begins nor ends with white space. -/
abbrev Tipped (cs : List Char) : Prop :=
  Bordered isBlank cs

theorem Solid.bordered {p : Char → Bool} {cs : List Char} (solid : Solid p cs) : Bordered p cs :=
  ⟨fun c head => solid c (List.mem_of_head? head), fun c last => solid c (List.mem_of_getLast? last)⟩

theorem tipped_trim (cs : List Char) : Tipped (trim cs) := by
  have stops (ds : List Char) : ∀ c ∈ (ds.dropWhile isBlank).head?, isBlank c = false := by
    intro c head
    have other := List.head?_dropWhile_not isBlank ds
    rw [Option.mem_def.mp head] at other
    simpa using other
  constructor
  · intro c head
    have front : trim cs <+: trimStart cs := by
      rw [← List.reverse_suffix, trim, trimEnd, List.reverse_reverse]
      exact List.dropWhile_suffix _
    obtain ⟨rest, split⟩ := front
    refine stops cs c ?_
    rw [← trimStart, ← split, List.head?_append, Option.mem_def.mp head]
    rfl
  · rw [trim, trimEnd, List.getLast?_reverse]
    exact stops _

theorem trimStart_append {blanks cs : List Char} (blank : ∀ c ∈ blanks, isBlank c = true)
    (first : ∀ c ∈ cs.head?, isBlank c = false) : trimStart (blanks ++ cs) = cs := by
  rw [trimStart, List.dropWhile_append_of_pos blank]
  cases cs with
  | nil => rfl
  | cons c cs => rw [List.dropWhile_cons_of_neg (by simp [first c rfl])]

/-- A text without white space at its ends is what is left when it stands between blanks. -/
theorem trim_of_tipped {front cs back : List Char} (tipped : Tipped cs)
    (before : ∀ c ∈ front, isBlank c = true) (behind : ∀ c ∈ back, isBlank c = true) :
    trim (front ++ cs ++ back) = cs := by
  have last {ds : List Char} (solid : ∀ c ∈ ds.getLast?, isBlank c = false) :
      trimEnd (ds ++ back) = ds := by
    have turned := @trimStart_append back.reverse ds.reverse
      (fun c member => behind c (List.mem_reverse.mp member)) (by rwa [List.head?_reverse])
    rw [trimEnd, List.reverse_append, ← trimStart, turned, List.reverse_reverse]
  cases cs with
  | nil =>
    have none := @trimStart_append (front ++ [] ++ back) []
      (by simpa [or_imp, forall_and] using ⟨before, behind⟩) nofun
    rw [List.append_nil] at none
    rw [trim, none]
    rfl
  | cons c cs =>
    have whole := @trimStart_append front (c :: cs ++ back) before tipped.first
    rw [trim, List.append_assoc, whole]
    exact last tipped.last

theorem trim_self {cs : List Char} (tipped : Tipped cs) : trim cs = cs := by
  have same := @trim_of_tipped [] cs [] tipped nofun nofun
  rwa [List.append_nil] at same

end Trimming

section Quotes

theorem getLast?_throughQuote {quote : Char} {cs : List Char} {cut : Cut}
    (found : throughQuote quote cs = some cut) : cut.1.getLast? = some quote := by
  fun_induction throughQuote quote cs generalizing cut with
  | case1 | case2 | case3 | case6 => simp at found
  | case4 c rest _ ih =>
    obtain ⟨inner, fromRest, rfl⟩ := Option.map_eq_some_iff.mp found
    simp [Cut.cons, List.getLast?_cons, ih fromRest]
  | case5 =>
    cases found
    rfl
  | case7 c rest _ _ _ _ ih =>
    obtain ⟨inner, fromRest, rfl⟩ := Option.map_eq_some_iff.mp found
    simp [Cut.cons, List.getLast?_cons, ih fromRest]

theorem getLast?_throughBlockEnd {cs : List Char} {cut : Cut}
    (found : throughBlockEnd cs = some cut) : cut.1.getLast? = some '"' := by
  fun_induction throughBlockEnd cs generalizing cut with
  | case1 => simp at found
  | case2 =>
    cases found
    rfl
  | case3 c rest _ ih =>
    obtain ⟨inner, fromRest, rfl⟩ := Option.map_eq_some_iff.mp found
    simp [Cut.cons, List.getLast?_cons, ih fromRest]

theorem getLast?_throughString {cs : List Char} {cut : Cut} (found : throughString cs = some cut) :
    cut.1.getLast? = some '"' := by
  unfold throughString at found
  split at found
  · split at found
    · rename_i inner block
      cases found
      simp [Cut.cons, List.getLast?_cons, getLast?_throughBlockEnd block]
    · exact getLast?_throughQuote found
  · exact getLast?_throughQuote found

end Quotes

namespace Piece

/-- White space, or a token that is no documentation. -/
def Bare : Piece → Prop
  | gap g => g.all isGapChar = true
  | token t => t.isDoc = false

instance : (piece : Piece) → Decidable piece.Bare
  | gap g => inferInstanceAs (Decidable (g.all isGapChar = true))
  | token t => inferInstanceAs (Decidable (t.isDoc = false))

variable {piece : Piece} {pieces : List Piece} {rest : List Char}

theorem bordered_of_next? {p : Char → Bool} (foreign : Foreign p) {cs rest : List Char} {t : Token}
    (found : next? cs = some (token t, rest)) (plain : t.isDoc = false)
    (symbol : ∀ s, t = .symbol s → Bordered p s.text.toList) : Bordered p t.text.toList := by
  have quoted {quote : Char} {cs : List Char} (mark : p quote = false)
      (last : cs.getLast? = some quote) : Bordered p (quote :: cs) := by
    refine ⟨fun c same => Option.some.inj same ▸ mark, fun c same => ?_⟩
    rw [List.getLast?_cons, last] at same
    exact Option.some.inj same ▸ mark
  unfold next? at found
  split at found
  · cases found
  rename_i c cs
  split at found
  · cases found
  split at found
  · rename_i start
    have whole := congrArg (fun cut => cut.1.text) (Option.some.inj found)
    change (ofWord _).text = t.text.toList at whole
    rw [text_ofWord] at whole
    rw [← whole]
    exact (Solid.cons (foreign.namePart (isNamePart_of_isNameStart start))
      (solid_spanning foreign.namePart _)).bordered
  split at found
  · rename_i digit
    cases found
    rw [Token.text, String.toList_ofList]
    exact (Solid.cons (foreign.digit digit) (foreign.solid_throughNumber c _)).bordered
  have slash : Solid p ['/'] := .cons (foreign.operator (by decide)) .nil
  split at found
  · have found := Option.some.inj found
    unfold afterSlash at found
    split at found
    · cases found
    · split at found
      · have comment := congrArg (·.1) found
        simp only [ofComment] at comment
        split at comment
        · cases comment
          cases plain
        · cases comment
      · cases found
        exact slash.bordered
    · cases found
      exact slash.bordered
  split at found
  · have found := Option.some.inj found
    unfold afterDot at found
    split at found <;> cases found <;> exact symbol _ rfl
  split at found
  · rename_i quote
    obtain ⟨cut, through, same⟩ := Option.map_eq_some_iff.mp found
    cases same
    rw [Token.text, String.toList_ofList, Cut.cons, quote]
    exact quoted (foreign.marks '"' (by decide)) (getLast?_throughString through)
  split at found
  · rename_i quote
    obtain ⟨cut, through, same⟩ := Option.map_eq_some_iff.mp found
    cases same
    rw [Token.text, String.toList_ofList, Cut.cons, quote]
    exact quoted (foreign.marks '\'' (by decide)) (getLast?_throughQuote through)
  split at found
  · cases found
    exact symbol _ rfl
  split at found
  · rename_i operator
    cases found
    rw [Token.text, String.toList_ofList]
    exact (Solid.cons (foreign.operator operator) .nil).bordered
  · cases found

theorem tipped_of_next? {cs rest : List Char} {t : Token} (found : next? cs = some (token t, rest))
    (plain : t.isDoc = false) : Tipped t.text.toList :=
  bordered_of_next? foreign_isBlank found plain fun s _ => by
    cases s <;> exact Solid.bordered (by decide)

/-- A brace that closes a block is a token of its own. -/
theorem eq_rbrace_of_getLast? {t : Token} {rest : List Char} (stands : (token t).Stands rest)
    (plain : t.isDoc = false) (last : t.text.toList.getLast? = some '}') :
    t = .symbol .rbrace := by
  by_contra other
  have bordered : Bordered (· == '}') t.text.toList := by
    refine bordered_of_next? foreign_rbrace stands plain fun s same => ?_
    subst same
    cases s
    case rbrace => exact absurd rfl other
    all_goals exact Solid.bordered (by decide)
  have brace := bordered.last '}' last
  cases brace

/-- Pieces of a source kept as text: tokens, with nothing but white space between them. -/
structure Raw (pieces : List Piece) : Prop where
  bare : ∀ p ∈ pieces, p.Bare
  first : ∀ p ∈ pieces.head?, ∃ t, p = token t
  last : ∀ p ∈ pieces.getLast?, ∃ t, p = token t
  stand : AllStand pieces []

theorem Raw.nil : Raw [] :=
  ⟨nofun, nofun, nofun, trivial⟩

theorem exists_token_head (pieces : List Piece) : ∃ gaps others, pieces = gaps ++ others ∧
    (∀ p ∈ gaps, ∃ g, p = gap g) ∧ ∀ p ∈ others.head?, ∃ t, p = token t := by
  induction pieces with
  | nil => exact ⟨[], [], rfl, nofun, nofun⟩
  | cons piece pieces ih =>
    cases piece with
    | token t => exact ⟨[], _, rfl, nofun, fun p same => ⟨t, (Option.some.inj same).symm⟩⟩
    | gap g =>
      obtain ⟨gaps, others, rfl, blank, first⟩ := ih
      exact ⟨gap g :: gaps, others, rfl, List.forall_mem_cons.mpr ⟨⟨g, rfl⟩, blank⟩, first⟩

theorem exists_token_last (pieces : List Piece) : ∃ others gaps, pieces = others ++ gaps ∧
    (∀ p ∈ gaps, ∃ g, p = gap g) ∧ ∀ p ∈ others.getLast?, ∃ t, p = token t := by
  obtain ⟨gaps, others, turned, blank, first⟩ := exists_token_head pieces.reverse
  refine ⟨others.reverse, gaps.reverse, ?_, fun p member => blank p (List.mem_reverse.mp member), ?_⟩
  · rw [← List.reverse_append, ← turned, List.reverse_reverse]
  · rwa [List.getLast?_reverse]

theorem tokens_of_gaps {gaps : List Piece} (blank : ∀ p ∈ gaps, ∃ g, p = gap g) :
    tokens gaps = [] := by
  induction gaps with
  | nil => rfl
  | cons p gaps ih =>
    obtain ⟨⟨g, rfl⟩, others⟩ := List.forall_mem_cons.mp blank
    exact ih others

theorem isBlank_of_bare {c : Char} (bare : ∀ p ∈ pieces, p.Bare)
    (gaps : ∀ p ∈ pieces, ∃ g, p = gap g) (member : c ∈ pieces.flatMap text) : isBlank c = true := by
  obtain ⟨p, among, inside⟩ := List.mem_flatMap.mp member
  obtain ⟨g, rfl⟩ := gaps p among
  exact isBlank_of_isGapChar (List.all_eq_true.mp (bare _ among) c inside)

/-- Pieces are raw as soon as their text neither begins nor ends with white space. -/
theorem AllStand.raw (stand : AllStand pieces []) (bare : ∀ p ∈ pieces, p.Bare)
    (tipped : Tipped (pieces.flatMap text)) : Raw pieces := by
  have outer {g : List Char} (member : gap g ∈ pieces) (some : g ≠ []) :
      isBlank (g.head some) = true ∧ isBlank (g.getLast some) = true := by
    have blank := List.all_eq_true.mp (bare _ member)
    exact ⟨isBlank_of_isGapChar (blank _ (List.head_mem some)),
      isBlank_of_isGapChar (blank _ (List.getLast_mem some))⟩
  refine ⟨bare, fun p head => ?_, fun p last => ?_, stand⟩
  · cases p with
    | token t => exact ⟨t, rfl⟩
    | gap g =>
      obtain ⟨others, rfl⟩ := List.head?_eq_some_iff.mp head
      have some : g ≠ [] := stand.1.text_ne_nil
      have first := tipped.first (g.head some) (by
        rw [List.flatMap_cons, List.head?_append, text, List.head?_eq_some_head some]
        rfl)
      rw [(outer List.mem_cons_self some).1] at first
      cases first
  · cases p with
    | token t => exact ⟨t, rfl⟩
    | gap g =>
      obtain ⟨others, rfl⟩ := List.getLast?_eq_some_iff.mp last
      have some : g ≠ [] := (allStand_append.mp stand).2.1.text_ne_nil
      have final := tipped.last (g.getLast some) (by
        rw [List.flatMap_append, List.flatMap_singleton, List.getLast?_append, text,
          List.getLast?_eq_some_getLast some]
        rfl)
      rw [(outer (List.mem_append_right _ List.mem_cons_self) some).2] at final
      cases final

theorem AllStand.tipped (stand : AllStand pieces rest)
    (first : ∀ p ∈ pieces.head?, ∃ t, p = token t ∧ t.isDoc = false)
    (last : ∀ p ∈ pieces.getLast?, ∃ t, p = token t ∧ t.isDoc = false) :
    Tipped (pieces.flatMap text) := by
  have each {t : Token} (member : token t ∈ pieces) (plain : t.isDoc = false) :
      t.text.toList ≠ [] ∧ Tipped t.text.toList := by
    obtain ⟨front, back, rfl⟩ := List.append_of_mem member
    have stands := (allStand_append.mp stand).2.1
    exact ⟨stands.text_ne_nil, tipped_of_next? stands plain⟩
  constructor
  · cases pieces with
    | nil => nofun
    | cons piece pieces =>
      obtain ⟨t, rfl, plain⟩ := first piece rfl
      obtain ⟨some, tipped⟩ := each List.mem_cons_self plain
      intro c head
      rw [List.flatMap_cons, List.head?_append, text, List.head?_eq_some_head some] at head
      exact tipped.first c (by rw [List.head?_eq_some_head some]; exact head)
  · intro c final
    rcases List.eq_nil_or_concat pieces with rfl | ⟨front, piece, rfl⟩
    · cases final
    obtain ⟨t, rfl, plain⟩ := last piece (by simp)
    obtain ⟨some, tipped⟩ := @each t (by simp) plain
    rw [List.concat_eq_append, List.flatMap_append, List.flatMap_singleton,
      List.getLast?_append, text, List.getLast?_eq_some_getLast some] at final
    exact tipped.last c (by rw [List.getLast?_eq_some_getLast some]; exact final)

theorem Raw.tipped (raw : Raw pieces) : Tipped (pieces.flatMap text) := by
  refine raw.stand.tipped (fun p head => ?_) (fun p final => ?_)
  · obtain ⟨t, rfl⟩ := raw.first p head
    exact ⟨t, rfl, raw.bare _ (List.mem_of_head? head)⟩
  · obtain ⟨t, rfl⟩ := raw.last p final
    exact ⟨t, rfl, raw.bare _ (List.mem_of_getLast? final)⟩

/-- What is left of a stretch of a source without the blanks at its ends. -/
theorem AllStand.exists_raw (stand : AllStand pieces rest) (bare : ∀ p ∈ pieces, p.Bare) :
    ∃ front raw back, pieces = front ++ raw ++ back ∧ Raw raw ∧ tokens raw = tokens pieces ∧
      trim (pieces.flatMap text) = raw.flatMap text := by
  obtain ⟨front, behind, rfl, before, first⟩ := exists_token_head pieces
  obtain ⟨raw, back, rfl, after, last⟩ := exists_token_last behind
  rw [← List.append_assoc] at stand bare ⊢
  have raws : Raw raw := by
    refine ⟨fun p member => bare p (by simp [member]), fun p head => first p ?_, last, ?_⟩
    · rw [List.head?_append, Option.mem_def.mp head]
      rfl
    · exact (allStand_append.mp (allStand_append.mp stand).1).2.alone last
  refine ⟨front, raw, back, rfl, raws, ?_, ?_⟩
  · rw [tokens_append, tokens_append, tokens_of_gaps before, tokens_of_gaps after, List.append_nil, List.nil_append]
  · rw [List.flatMap_append, List.flatMap_append]
    refine trim_of_tipped raws.tipped (fun c member => ?_) (fun c member => ?_)
    · exact isBlank_of_bare (fun p among => bare p (by simp [among])) before member
    · exact isBlank_of_bare (fun p among => bare p (by simp [among])) after member

end Piece

/-- The pieces of a text. -/
def rawPieces (text : String) : List Piece :=
  (Piece.all text.toList).toOption.getD []

/-- A text that is kept as it stands in a source. -/
structure IsRaw (text : String) : Prop where
  whole : (rawPieces text).flatMap Piece.text = text.toList
  raw : Piece.Raw (rawPieces text)

theorem rawPieces_of_whole {text : String} {pieces : List Piece}
    (whole : pieces.flatMap Piece.text = text.toList) (stand : Piece.AllStand pieces []) :
    rawPieces text = pieces := by
  rw [rawPieces, Piece.all_eq_ok_iff.mpr ⟨whole, stand⟩]
  rfl

theorem rawPieces_of_allStand {pieces : List Piece} (stand : Piece.AllStand pieces []) :
    rawPieces (String.ofList (pieces.flatMap Piece.text)) = pieces :=
  rawPieces_of_whole String.toList_ofList.symm stand

theorem rawPieces_ofList {pieces : List Piece} (raw : Piece.Raw pieces) :
    rawPieces (String.ofList (pieces.flatMap Piece.text)) = pieces :=
  rawPieces_of_allStand raw.stand

theorem IsRaw.trim {text : String} (raw : IsRaw text) : Text.trim text.toList = text.toList :=
  trim_self (raw.whole ▸ raw.raw.tipped)

theorem Piece.Raw.isRaw {pieces : List Piece} (raw : Piece.Raw pieces) :
    IsRaw (String.ofList (pieces.flatMap Piece.text)) := by
  have same := rawPieces_ofList raw
  exact ⟨by rw [same, String.toList_ofList], same.symm ▸ raw⟩

end CreatorSynth
