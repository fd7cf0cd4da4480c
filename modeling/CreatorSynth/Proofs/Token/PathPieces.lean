import Mathlib.Data.List.TakeWhile
import CreatorSynth.Proofs.Creator.Identifiers
import CreatorSynth.Proofs.Printer.Fits

/-! How a dotted path is cut whose segments have the shape of identifiers. A character of such a
segment that is none of a name begins no piece at all, so where the text is cut, each segment is one
word of it, be it a name or a keyword. -/
namespace CreatorSynth
open Text

namespace Piece

variable {pieces : List Piece} {rest cs : List Char} {c : Char}

theorem next?_foreign (foreign : ¬ c.toNat < 0x80) (other : isNameStart c = false)
    (rest : List Char) : next? (c :: rest) = none := by
  have apart : ∀ d : Char, d.toNat < 0x80 → c ≠ d := by
    rintro d ascii rfl
    exact foreign ascii
  have gap : isGapChar c = false := by
    simp [isGapChar, apart]
  have digit : c.isDigit = false := by
    cases number : c.isDigit with
    | false => rfl
    | true => exact absurd (isAscii_of_isDigit number) foreign
  have symbol : Symbol.ofChar? c = none := by
    unfold Symbol.ofChar?
    split <;> first | rfl | exact absurd rfl (apart _ (by decide))
  have operator : isOperatorChar c = false := by
    simp [isOperatorChar, apart]
  have slash : c ≠ '/' := apart _ (by decide)
  have dot : c ≠ '.' := apart _ (by decide)
  have quote : c ≠ '"' := apart _ (by decide)
  have apostrophe : c ≠ '\'' := apart _ (by decide)
  simp [next?, gap, other, digit, slash, dot, quote, apostrophe, symbol, operator]

theorem next?_foreign_start (start : isIdentifierStart c = true) (other : isNameStart c = false)
    (rest : List Char) : next? (c :: rest) = none := by
  refine next?_foreign (fun ascii => ?_) other rest
  have known := of_ascii (fun c => !isIdentifierStart c || isNameStart c) (by decide +kernel) ascii
  simp [start, other] at known

theorem next?_foreign_part (part : isIdentifierPart c = true) (other : isNamePart c = false)
    (rest : List Char) : next? (c :: rest) = none := by
  refine next?_foreign (fun ascii => ?_) ?_ rest
  · have known := of_ascii (fun c => !isIdentifierPart c || isNamePart c) (by decide +kernel) ascii
    simp [part, other] at known
  · cases begins : isNameStart c with
    | false => rfl
    | true => exact absurd (isNamePart_of_isNameStart begins) (by rw [other]; nofun)

theorem AllStand.next?_ne_none (stand : AllStand pieces [])
    (whole : pieces.flatMap text = c :: cs) : next? (c :: cs) ≠ none := by
  cases pieces with
  | nil => cases whole
  | cons piece pieces =>
    have first := stand.1
    rw [Stands, List.append_nil, ← List.flatMap_cons, whole] at first
    rw [first]
    exact Option.some_ne_none _

/-- A word is cut off in front of what ends it. -/
theorem exists_word {c : Char} (begins : isNameStart c = true) (words : cs.all isNamePart = true)
    (stand : AllStand pieces []) (whole : pieces.flatMap text = c :: cs ++ rest)
    (breaks : Breaks rest) :
    ∃ more, pieces = ofWord (c :: cs) :: more ∧ more.flatMap text = rest := by
  have word : AllStand [ofWord (c :: cs)] rest := by
    refine ⟨?_, trivial⟩
    rw [Stands, text_ofWord]
    exact next?_word begins words breaks
  obtain ⟨more, rfl, left⟩ := word.exists_append stand (by
    rw [List.flatMap_singleton, text_ofWord, whole])
  exact ⟨more, rfl, left⟩

theorem exists_word_of_shape {s : String} (shape : hasIdentifierShape s = true)
    (stand : AllStand pieces []) (whole : pieces.flatMap text = s.toList ++ rest)
    (breaks : Breaks rest) :
    ∃ more, pieces = ofWord s.toList :: more ∧ more.flatMap text = rest := by
  rw [hasIdentifierShape] at shape
  split at shape
  · cases shape
  rename_i c cs split
  obtain ⟨start, parts⟩ := Bool.and_eq_true_iff.mp shape
  rw [split] at whole ⊢
  have begins : isNameStart c = true := by
    cases begins : isNameStart c with
    | true => rfl
    | false => exact absurd (next?_foreign_start start begins _) (stand.next?_ne_none whole)
  refine exists_word begins (List.all_eq_true.mpr (List.dropWhile_eq_nil_iff.mp ?_)) stand whole
    breaks
  -- Behind a part that is a word stands what begins no piece.
  cases behind : cs.dropWhile isNamePart with
  | nil => rfl
  | cons x b =>
    have other : isNamePart x = false := by
      have stops := List.head?_dropWhile_not isNamePart cs
      rw [behind] at stops
      simpa using stops
    have whole' : cs.takeWhile isNamePart ++ x :: b = cs := by
      rw [← behind, List.takeWhile_append_dropWhile]
    have cut : c :: cs ++ rest = c :: cs.takeWhile isNamePart ++ (x :: b ++ rest) := by
      rw [← List.append_assoc]
      exact congrArg (c :: · ++ rest) whole'.symm
    obtain ⟨more, rfl, left⟩ := exists_word begins (List.all_eq_true.mpr fun y member =>
      List.mem_takeWhile_imp member) stand (whole.trans cut) other
    have inside : x ∈ cs := (List.dropWhile_suffix _).subset (behind ▸ List.mem_cons_self)
    have part := List.all_eq_true.mp parts x inside
    exact absurd (next?_foreign_part part other _) (stand.2.next?_ne_none left)

/-- The pieces of a further segment. -/
def furtherPieces (s : String) : List Piece :=
  [token (.symbol .dot), ofWord s.toList]

/-- The pieces of a dotted path. -/
def pathPieces : List String → List Piece
  | [] => []
  | first :: others => ofWord first.toList :: others.flatMap furtherPieces

theorem flatMap_text_pathPieces (first : String) (others : List String) :
    (pathPieces (first :: others)).flatMap text = (joinSegments (first :: others)).toList := by
  induction others generalizing first with
  | nil =>
    rw [joinSegments_singleton, pathPieces, List.flatMap_nil, List.flatMap_singleton, text_ofWord]
  | cons s others ih =>
    rw [joinSegments_cons (List.cons_ne_nil _ _), String.toList_append, String.toList_append, ← ih]
    simp only [pathPieces, furtherPieces, List.flatMap_cons, List.flatMap_append, List.flatMap_nil,
      List.append_nil, text_ofWord, List.append_assoc]
    rfl

theorem exists_head_joinSegments {s : String} (others : List String)
    (shape : hasIdentifierShape s = true) :
    ∃ c cs, (joinSegments (s :: others)).toList = c :: cs ∧ isIdentifierStart c = true := by
  rw [hasIdentifierShape] at shape
  split at shape
  · cases shape
  rename_i c cs same
  have start := (Bool.and_eq_true_iff.mp shape).1
  cases others with
  | nil => exact ⟨c, cs, by rw [joinSegments_singleton, same], start⟩
  | cons t others =>
    rw [joinSegments_cons (List.cons_ne_nil _ _), String.toList_append, String.toList_append, same]
    exact ⟨c, _, rfl, start⟩

/-- Where a text that begins with a path of identifiers is cut, it begins with these pieces. -/
theorem exists_pathPieces {first : String} {others : List String}
    (shape : ∀ s ∈ first :: others, hasIdentifierShape s = true) (stand : AllStand pieces [])
    (whole : pieces.flatMap text = (joinSegments (first :: others)).toList ++ rest)
    (breaks : Breaks rest) :
    ∃ more, pieces = pathPieces (first :: others) ++ more ∧ more.flatMap text = rest := by
  induction others generalizing first pieces with
  | nil =>
    rw [joinSegments_singleton] at whole
    exact exists_word_of_shape (shape first List.mem_cons_self) stand whole breaks
  | cons s others ih =>
    obtain ⟨here, further⟩ := List.forall_mem_cons.mp shape
    rw [joinSegments_cons (List.cons_ne_nil _ _), String.toList_append, String.toList_append,
      List.append_assoc, List.append_assoc] at whole
    have ended : Breaks (".".toList ++ ((joinSegments (s :: others)).toList ++ rest)) :=
      breaks_cons (by decide) _
    obtain ⟨more, rfl, left⟩ := exists_word_of_shape here stand whole ended
    clear whole
    have single : ¬ ['.', '.'] <+: (joinSegments (s :: others)).toList ++ rest := by
      obtain ⟨c, cs, same, start⟩ := exists_head_joinSegments others (further s List.mem_cons_self)
      rw [same]
      rintro ⟨_, dots⟩
      obtain ⟨rfl, _⟩ := List.cons.inj dots
      revert start
      decide +kernel
    have dot : AllStand [token (.symbol .dot)] ((joinSegments (s :: others)).toList ++ rest) :=
      ⟨stands_symbol fun _ => single, trivial⟩
    obtain ⟨more, rfl, behind⟩ := dot.exists_append stand.2 left
    obtain ⟨more, rfl, last⟩ := ih further (allStand_append.mp stand.2).2 behind
    exact ⟨more, by simp [pathPieces, furtherPieces], last⟩

section Imports

variable {d : Dialect} {g h : List Char} {front back : List Piece} {first : String}
  {others : List String}

/-- The text of an import of one class. -/
def importPieces (d : Dialect) (segments : List String) : List Piece :=
  token (.keyword .importWord) :: gap [' '] :: (pathPieces segments ++ d.terminatorPieces)

theorem flatMap_text_importPieces (d : Dialect) (first : String) (others : List String) :
    (importPieces d (first :: others)).flatMap text =
      ("import " ++ joinSegments (first :: others) ++ d.terminator).toList := by
  simp only [importPieces, List.flatMap_cons, List.flatMap_append, flatMap_text_pathPieces,
    flatMap_text_terminatorPieces, String.toList_append, List.append_assoc]
  rfl

theorem plain_ofWord_of_shape {s : String} (shape : hasIdentifierShape s = true) :
    (ofWord s.toList).Plain := by
  intro c member
  have part : isIdentifierPart c = true := by
    rw [text_ofWord] at member
    rw [hasIdentifierShape] at shape
    split at shape
    · cases shape
    rename_i x xs split
    obtain ⟨start, parts⟩ := Bool.and_eq_true_iff.mp shape
    rw [split] at member
    rcases List.mem_cons.mp member with rfl | later
    · exact NamingConventions.isIdentifierPart_of_isIdentifierStart start
    · exact List.all_eq_true.mp parts c later
  refine ⟨?_, ?_, ?_⟩ <;> rintro rfl <;> revert part <;> decide +kernel

/-- An import with blanks around it. -/
def spacedImport (d : Dialect) (g h : List Char) (segments : List String) : List Piece :=
  gap g :: (importPieces d segments ++ [gap h])

theorem flatMap_text_spacedImport (d : Dialect) (g h : List Char) (first : String)
    (others : List String) : (spacedImport d g h (first :: others)).flatMap text =
      g ++ (("import " ++ joinSegments (first :: others) ++ d.terminator).toList ++ h) := by
  rw [spacedImport, List.flatMap_cons, List.flatMap_append, flatMap_text_importPieces,
    List.flatMap_singleton]
  rfl

theorem forall_mem_spacedImport {P : Piece → Prop} (gaps : ∀ cs ∈ [g, h, [' ']], P (gap cs))
    (keyword : P (token (.keyword .importWord))) (symbol : ∀ s, P (token (.symbol s)))
    (word : ∀ s ∈ first :: others, P (ofWord s.toList)) :
    ∀ p ∈ spacedImport d g h (first :: others), P p := by
  have path : ∀ p ∈ pathPieces (first :: others), P p := by
    refine List.forall_mem_cons.mpr ⟨word first List.mem_cons_self, fun p member => ?_⟩
    obtain ⟨s, segment, member⟩ := List.mem_flatMap.mp member
    rcases List.mem_cons.mp member with rfl | member
    · exact symbol .dot
    · rw [List.mem_singleton.mp member]
      exact word s (List.mem_cons_of_mem _ segment)
  have ended : ∀ p ∈ d.terminatorPieces, P p := by
    cases d
    · exact List.forall_mem_singleton.mpr (symbol .semicolon)
    · exact nofun
  refine List.forall_mem_cons.mpr ⟨gaps g (by simp), List.forall_mem_append.mpr
    ⟨List.forall_mem_cons.mpr ⟨keyword, List.forall_mem_cons.mpr ⟨gaps [' '] (by simp), ?_⟩⟩,
      List.forall_mem_singleton.mpr (gaps h (by simp))⟩⟩
  exact List.forall_mem_append.mpr ⟨path, ended⟩

theorem plain_spacedImport (shape : ∀ s ∈ first :: others, hasIdentifierShape s = true)
    (blank : g.all isGapChar = true) (blank' : h.all isGapChar = true) :
    ∀ p ∈ spacedImport d g h (first :: others), p.Plain := by
  refine forall_mem_spacedImport (fun cs member => plain_gap ?_) (plain_keyword _) plain_symbol
    fun s segment => plain_ofWord_of_shape (shape s segment)
  simp only [List.mem_cons, List.not_mem_nil, or_false] at member
  rcases member with rfl | rfl | rfl
  · exact blank
  · exact blank'
  · decide

theorem AllStand.in_front_of_plain {inner : List Piece} (stand : AllStand front rest)
    (ends : ∀ p ∈ front.getLast?, ∃ t, p = token t) (blank : g.all isGapChar = true)
    (apart : g = [] → front = []) (plain : ∀ p ∈ gap g :: inner, p.Plain) :
    AllStand front ((gap g :: inner).flatMap text ++ rest) := by
  by_cases empty : g = []
  · rw [apart empty]
    trivial
  refine stand.seam_of_free (fun c first => ?_) ends fun closer opened => ?_
  · obtain ⟨x, g, rfl⟩ := List.exists_cons_of_ne_nil empty
    cases first
    rw [isSeam, List.all_eq_true.mp blank c List.mem_cons_self]
    rfl
  · refine Free.append (fun c member => ?_) opened.ne_nil (stand.free opened)
    obtain ⟨p, inside, member⟩ := List.mem_flatMap.mp member
    exact (plain p inside).apart opened c member

theorem isGapChar_of_isIdentifierStart {c : Char} (start : isIdentifierStart c = true) :
    isGapChar c = false := by
  cases gap : isGapChar c with
  | false => rfl
  | true =>
    simp only [isGapChar, Bool.or_eq_true, beq_iff_eq] at gap
    rcases gap with (((rfl | rfl) | rfl) | rfl) | rfl <;> revert start <;> decide +kernel

/-- A source with an import written into it is cut like the source, with the import cut by
itself. -/
theorem fit_spacedImport (shape : ∀ s ∈ first :: others, hasIdentifierShape s = true)
    (stand : AllStand (front ++ back) []) (ends : ∀ p ∈ front.getLast?, ∃ t, p = token t)
    (apart : g = [] → front = []) (blank : g.all isGapChar = true) (blank' : h.all isGapChar = true)
    (breaks : Breaks ((d.terminatorPieces ++ gap h :: back).flatMap text)) {located : List Located}
    (cuts : tokenize (String.ofList
      ((front ++ (spacedImport d g h (first :: others) ++ back)).flatMap text)) = .ok located) :
    Fit (front ++ (spacedImport d g h (first :: others) ++ back)) [] := by
  obtain ⟨pieces, whole, all, rfl⟩ := exists_pieces_of_tokenize cuts
  rw [String.toList_ofList] at whole
  obtain ⟨before, behind⟩ := allStand_append.mp stand
  rw [List.append_nil] at before
  have seam : AllStand front
      ((spacedImport d g h (first :: others)).flatMap text ++ back.flatMap text) :=
    before.in_front_of_plain ends blank apart (plain_spacedImport shape blank blank')
  have parts : spacedImport d g h (first :: others) ++ back =
      [gap g, token (.keyword .importWord), gap [' ']] ++
        (pathPieces (first :: others) ++ (d.terminatorPieces ++ gap h :: back)) := by
    simp [spacedImport, importPieces]
  rw [← List.flatMap_append, parts, List.flatMap_append] at seam
  rw [parts, ← List.append_assoc] at whole ⊢
  generalize tail : d.terminatorPieces ++ gap h :: back = more at *
  -- Through the blank behind the first word nothing is cut differently, so the path follows there.
  have head : Fit (front ++ [gap g, token (.keyword .importWord), gap [' ']])
      ((pathPieces (first :: others) ++ more).flatMap text) := by
    refine fit_append.mpr ⟨seam.fit, .inr ⟨g, rfl, blank⟩, .inl (stands_keyword ?_),
      .inr ⟨[' '], rfl, rfl⟩, trivial⟩
    exact breaks_space [] _
  have solid :
      ((pathPieces (first :: others) ++ more).flatMap text).head?.any isGapChar = false := by
    rw [List.flatMap_append, flatMap_text_pathPieces]
    obtain ⟨c, cs, same, start⟩ := exists_head_joinSegments others (shape first List.mem_cons_self)
    rw [same]
    exact isGapChar_of_isIdentifierStart start
  obtain ⟨cut, same, cut_stand, _⟩ := exists_allStand_of_fit head solid
  rw [List.flatMap_append, ← same] at whole
  obtain ⟨rest, rfl, left⟩ := cut_stand.exists_append all whole
  rw [List.flatMap_append, flatMap_text_pathPieces] at left
  obtain ⟨_, rfl, ended⟩ := exists_pathPieces shape (allStand_append.mp all).2 left breaks
  have path := (allStand_append.mp (allStand_append.mp all).2).1
  rw [List.append_nil, ended] at path
  have close : Fit more [] := by
    rw [← tail]
    exact fit_append.mpr ⟨(sewn_terminatorPieces d).fit_plain, .inr ⟨h, rfl, blank'⟩, behind.fit⟩
  refine fit_append.mpr ⟨?_, fit_append.mpr ⟨?_, close⟩⟩
  · rwa [List.append_nil]
  · rw [List.append_nil]
    exact path.fit

end Imports

end Piece

end CreatorSynth
