import CreatorSynth.Proofs.Token.Standing

/-! What a piece is does not depend on what follows behind a seam: white space, a semicolon, a
comma, a closing parenthesis, or the end of the text. -/
namespace CreatorSynth
open Text

def isSeam (c : Char) : Bool :=
  isGapChar c || c == ';' || c == ',' || c == ')'

/-- The text begins with a seam. -/
def Seam (cs : List Char) : Prop :=
  ∀ c ∈ cs.head?, isSeam c = true

theorem isSeam_cases {c : Char} (seam : isSeam c = true) :
    c = ' ' ∨ c = '\t' ∨ c = '\n' ∨ c = '\r' ∨ c = '\x0c' ∨ c = ';' ∨ c = ',' ∨
      c = ')' := by
  simpa [isSeam, isGapChar, or_assoc] using seam

/-- No character of the kind is a seam. -/
def Apart (p : Char → Bool) : Prop :=
  ∀ c, isSeam c = true → p c = false

theorem apart_of_cases {p : Char → Bool}
    (each : p ' ' = false ∧ p '\t' = false ∧ p '\n' = false ∧ p '\r' = false ∧ p '\x0c' = false ∧
      p ';' = false ∧ p ',' = false ∧ p ')' = false) : Apart p := by
  intro c seam
  obtain ⟨space, tab, feed, turn, page, semicolon, comma, parenthesis⟩ := each
  rcases isSeam_cases seam with rfl | rfl | rfl | rfl | rfl | rfl | rfl | rfl <;> assumption

/-- Where the scanner stops does not depend on what follows behind a seam. -/
def Curbed (scan : List Char → Cut) : Prop :=
  ∀ a z w w' : List Char, scan (a ++ (z ++ w)) = (a, z ++ w) → Seam w' →
    scan (a ++ (z ++ w')) = (a, z ++ w')

theorem head_of_curb {p : Char → Bool} (apart : Apart p) {z w w' : List Char}
    (stops : (z ++ w).head?.any p = false) (seam : Seam w') : (z ++ w').head?.any p = false := by
  cases z with
  | cons c z => exact stops
  | nil =>
    cases w' with
    | nil => rfl
    | cons c w' => exact apart c (seam c rfl)

theorem spanning_eq_iff {p : Char → Bool} {a y : List Char} :
    Cut.spanning p (a ++ y) = (a, y) ↔ a.all p = true ∧ y.head?.any p = false := by
  constructor
  · intro found
    have taken : (a ++ y).takeWhile p = a := congrArg Prod.fst found
    have left : (a ++ y).dropWhile p = y := congrArg Prod.snd found
    refine ⟨?_, ?_⟩
    · rw [← taken]
      exact List.all_takeWhile
    · cases y with
      | nil => rfl
      | cons c y =>
        have head := List.head?_dropWhile_not p (a ++ c :: y)
        rw [left] at head
        simpa using head
  · intro ⟨inside, stops⟩
    exact Piece.spanning_append inside stops

theorem spanning_within {p : Char → Bool} {a z w : List Char}
    (found : Cut.spanning p (a ++ (z ++ w)) = (a, z ++ w)) (stopped : z ≠ []) (w' : List Char) :
    Cut.spanning p (a ++ (z ++ w')) = (a, z ++ w') := by
  obtain ⟨inside, stops⟩ := spanning_eq_iff.mp found
  refine spanning_eq_iff.mpr ⟨inside, ?_⟩
  cases z with
  | nil => exact absurd rfl stopped
  | cons c z => exact stops

theorem curbed_spanning {p : Char → Bool} (apart : Apart p) : Curbed (Cut.spanning p) := by
  intro a z w w' found seam
  obtain ⟨inside, stops⟩ := spanning_eq_iff.mp found
  exact spanning_eq_iff.mpr ⟨inside, head_of_curb apart stops seam⟩

theorem Curbed.andThen {scan next : List Char → Cut} (first : Curbed scan) (second : Curbed next)
    (whole : ∀ cs, (scan cs).Of cs) (more : ∀ cs, (next cs).Of cs) :
    Curbed fun cs => (scan cs).andThen next := by
  intro a z w w' found seam
  have split := whole (a ++ (z ++ w))
  have rest := more (scan (a ++ (z ++ w))).2
  obtain ⟨taken, left⟩ := Prod.mk.inj found
  obtain ⟨a₁, r, begun⟩ : ∃ a₁ r, scan (a ++ (z ++ w)) = (a₁, r) := ⟨_, _, rfl⟩
  simp only [begun] at split rest taken left
  obtain ⟨a₂, _, ended⟩ : ∃ a₂ r₂, next r = (a₂, r₂) := ⟨_, _, rfl⟩
  rw [ended] at rest taken left
  subst left
  subst taken
  have r_eq : a₂ ++ (z ++ w) = r := rest
  subst r_eq
  have begun' : scan (a₁ ++ ((a₂ ++ z) ++ w)) = (a₁, (a₂ ++ z) ++ w) := by
    simpa only [List.append_assoc] using begun
  have first' := first _ _ _ _ begun' seam
  have second' := second _ _ _ _ ended seam
  simp only [List.append_assoc] at first' ⊢
  simp only [Cut.andThen, first', second']

theorem apart_isNamePart : Apart isNamePart :=
  apart_of_cases (by decide)

theorem apart_isDigitPart : Apart isDigitPart :=
  apart_of_cases (by decide)

theorem apart_isDigit : Apart Char.isDigit :=
  apart_of_cases (by decide)

theorem apart_isHexPart : Apart isHexPart :=
  apart_of_cases (by decide)

/-- What a scanner may begin with, as far as it looks ahead. -/
theorem curbed_of_cases {scan : List Char → Cut} (begins : List Char → Prop)
    (none : ∀ {cs}, ¬ begins cs → scan cs = ([], cs))
    (some : ∀ {cs}, begins cs → (scan cs).1 ≠ [])
    (ahead : ∀ {z w w'}, begins (z ++ w') → Seam w' → begins (z ++ w))
    (more : ∀ {a z w w' : List Char}, a ≠ [] → scan (a ++ (z ++ w)) = (a, z ++ w) → Seam w' →
      scan (a ++ (z ++ w')) = (a, z ++ w')) : Curbed scan := by
  intro a z w w' found seam
  by_cases empty : a = []
  · subst empty
    rw [List.nil_append] at found ⊢
    refine none fun begun => ?_
    have begins : begins (z ++ w) := ahead begun seam
    exact some begins (congrArg Prod.fst found)
  · exact more empty found seam

theorem curbed_fraction : Curbed fraction := by
  refine curbed_of_cases (fun cs => ∃ d rest, cs = '.' :: d :: rest ∧ isDigitPart d = true)
    ?_ ?_ ?_ ?_
  · intro cs other
    unfold fraction
    split
    · rename_i d rest
      rw [if_neg fun digit => other ⟨d, rest, rfl, digit⟩]
    · rfl
  · rintro _ ⟨d, rest, rfl, digit⟩
    simp [fraction, digit, Cut.cons]
  · rintro z w w' ⟨d, rest, shape, digit⟩ seam
    rcases z with _ | ⟨c, _ | ⟨d', z⟩⟩
    · rw [List.nil_append] at shape
      subst shape
      exact absurd (seam '.' rfl) (by decide)
    · obtain ⟨_, shape⟩ := List.cons.inj shape
      have shape : w' = d :: rest := shape
      subst shape
      rw [apart_isDigitPart d (seam d rfl)] at digit
      cases digit
    · obtain ⟨first, shape⟩ := List.cons.inj shape
      obtain ⟨second, _⟩ := List.cons.inj shape
      rw [first, second]
      exact ⟨d, z ++ w, rfl, digit⟩
  · intro a z w w' some found seam
    rcases a with _ | ⟨c, _ | ⟨d, a⟩⟩
    · exact absurd rfl some
    · unfold fraction at found
      split at found
      · split at found
        · have taken := congrArg Prod.fst found
          simp [Cut.cons] at taken
        · have taken := congrArg Prod.fst found
          cases taken
      · have taken := congrArg Prod.fst found
        cases taken
    · rw [List.cons_append, List.cons_append] at found ⊢
      unfold fraction at found
      split at found
      · rename_i d' rest shape
        obtain ⟨point, shape⟩ := List.cons.inj shape
        obtain ⟨same, same'⟩ := List.cons.inj shape
        subst point same same'
        split at found
        · rename_i digit
          have inner : Cut.spanning isDigitPart (a ++ (z ++ w)) = (a, z ++ w) := by
            simpa [Cut.cons, Prod.ext_iff] using found
          have inner' := curbed_spanning apart_isDigitPart _ _ _ _ inner seam
          simp only [fraction, digit, inner', Cut.cons, ↓reduceIte]
        · cases congrArg Prod.fst found
      · cases congrArg Prod.fst found

/-- The mark of an exponent, with a digit behind it or behind a sign. -/
def BeginsExponent (e s : Char) (rest : List Char) : Prop :=
  (e = 'e' ∨ e = 'E') ∧ (s.isDigit = true ∨ (s = '+' ∨ s = '-') ∧ rest.head?.any Char.isDigit = true)

instance (e s : Char) (rest : List Char) : Decidable (BeginsExponent e s rest) :=
  inferInstanceAs (Decidable (_ ∧ _))

theorem exponent_eq (e s : Char) (rest : List Char) :
    exponent (e :: s :: rest) =
      if BeginsExponent e s rest then ((Cut.spanning Char.isDigit rest).cons s).cons e
      else ([], e :: s :: rest) := by
  unfold BeginsExponent
  cases rest with
  | nil =>
    simp only [exponent, List.head?_nil, Option.any_none, Bool.and_eq_true, Bool.or_eq_true,
      beq_iff_eq, Bool.false_eq_true, and_false, or_false]
    rfl
  | cons d rest =>
    by_cases mark : e = 'e' ∨ e = 'E'
    · by_cases digit : s.isDigit = true
      · simp [exponent, mark, digit]
      · by_cases sign : (s = '+' ∨ s = '-') ∧ d.isDigit = true
        · simp [exponent, mark, digit, sign, Cut.spanning, Cut.cons]
        · simp [exponent, mark, digit, sign]
    · simp [exponent, mark]

theorem curbed_exponent : Curbed exponent := by
  refine curbed_of_cases (fun cs => ∃ e s rest, cs = e :: s :: rest ∧ BeginsExponent e s rest)
    ?_ ?_ ?_ ?_
  · intro cs other
    rcases cs with _ | ⟨e, _ | ⟨s, rest⟩⟩
    · rfl
    · rfl
    · rw [exponent_eq, if_neg fun begins => other ⟨e, s, rest, rfl, begins⟩]
  · rintro _ ⟨e, s, rest, rfl, begins⟩
    rw [exponent_eq, if_pos begins]
    exact List.cons_ne_nil _ _
  · rintro z w w' ⟨e, s, rest, shape, begins⟩ seam
    rcases z with _ | ⟨c, _ | ⟨d, z⟩⟩
    · have shape : w' = e :: s :: rest := shape
      subst shape
      rcases begins.1 with rfl | rfl
      · exact absurd (seam 'e' rfl) (by decide)
      · exact absurd (seam 'E' rfl) (by decide)
    · obtain ⟨_, shape⟩ := List.cons.inj shape
      have shape : w' = s :: rest := shape
      subst shape
      have stops := seam s rfl
      rcases begins.2 with digit | ⟨rfl | rfl, _⟩
      · rw [apart_isDigit s stops] at digit
        cases digit
      · exact absurd stops (by decide)
      · exact absurd stops (by decide)
    · simp only [List.cons_append, List.cons.injEq] at shape
      obtain ⟨rfl, rfl, rfl⟩ := shape
      refine ⟨c, d, z ++ w, rfl, begins.1, begins.2.imp_right fun signed => ⟨signed.1, ?_⟩⟩
      cases none : (z ++ w).head?.any Char.isDigit with
      | true => rfl
      | false =>
        have stops := head_of_curb apart_isDigit none seam
        rw [signed.2] at stops
        cases stops
  · intro a z w w' some found seam
    rcases a with _ | ⟨e, _ | ⟨s, a⟩⟩
    · exact absurd rfl some
    · rcases more : z ++ w with _ | ⟨s, rest⟩
      · rw [more] at found
        cases congrArg Prod.fst found
      · rw [more, List.singleton_append, exponent_eq] at found
        split at found
        · have taken := congrArg Prod.fst found
          simp [Cut.cons] at taken
        · cases congrArg Prod.fst found
    · rw [List.cons_append, List.cons_append, exponent_eq] at found
      rw [List.cons_append, List.cons_append, exponent_eq]
      split at found
      · rename_i begins
        have inner : Cut.spanning Char.isDigit (a ++ (z ++ w)) = (a, z ++ w) := by
          simpa [Cut.cons, Prod.ext_iff] using found
        have inner' := curbed_spanning apart_isDigit _ _ _ _ inner seam
        have begins' : BeginsExponent e s (a ++ (z ++ w')) := by
          refine ⟨begins.1, begins.2.imp_right fun signed => ⟨signed.1, ?_⟩⟩
          cases a with
          | cons d a => exact signed.2
          | nil =>
            have stops := (spanning_eq_iff.mp inner).2
            rw [List.nil_append] at signed
            rw [signed.2] at stops
            cases stops
        rw [if_pos begins', inner', Cut.cons, Cut.cons]
      · cases congrArg Prod.fst found

theorem curbed_optionally {set : List Char} (apart : Apart set.contains) :
    Curbed (optionally set) := by
  intro a z w w' found seam
  rcases a with _ | ⟨c, a⟩
  · rw [List.nil_append] at found ⊢
    have stops : (z ++ w).head?.any set.contains = false := by
      rcases more : z ++ w with _ | ⟨c, rest⟩
      · rfl
      · rw [more, optionally] at found
        split at found
        · cases congrArg Prod.fst found
        · rename_i other
          simpa using other
    have stops' := head_of_curb apart stops seam
    rcases more : z ++ w' with _ | ⟨c, rest⟩
    · rfl
    · rw [more] at stops'
      have other : ¬ set.contains c = true := by simpa using stops'
      rw [optionally, if_neg other]
  · rw [List.cons_append, optionally] at found ⊢
    split at found
    · rename_i listed
      have taken := congrArg Prod.fst found
      obtain ⟨_, rfl⟩ := List.cons.inj taken
      rw [if_pos listed]
      rfl
    · cases congrArg Prod.fst found

theorem curbed_throughDecimal : Curbed throughDecimal := by
  have suffixes : Apart (['l', 'L', 'f', 'F', 'd', 'D'] : List Char).contains :=
    apart_of_cases (by decide)
  have digits := curbed_spanning apart_isDigitPart
  have point := digits.andThen curbed_fraction (Cut.spanning_of _) fraction_of
  have power := point.andThen curbed_exponent
    (fun cs => (Cut.spanning_of _ cs).andThen fraction_of) exponent_of
  exact power.andThen (curbed_optionally suffixes)
    (fun cs => ((Cut.spanning_of _ cs).andThen fraction_of).andThen exponent_of) (optionally_of _)

/-- What makes a number hexadecimal. -/
def BeginsHex (first : Char) (cs : List Char) : Prop :=
  ∃ x h rest, cs = x :: h :: rest ∧ first = '0' ∧ (x = 'x' ∨ x = 'X') ∧ isHexPart h = true

theorem throughNumber_decimal {first : Char} {cs : List Char} (decimal : ¬ BeginsHex first cs) :
    throughNumber first cs = throughDecimal cs := by
  unfold throughNumber
  split
  · rename_i x h rest
    rw [if_neg]
    intro hex
    simp only [Bool.and_eq_true, Bool.or_eq_true, beq_iff_eq] at hex
    exact decimal ⟨x, h, rest, rfl, hex.1.1, hex.1.2, hex.2⟩
  · rfl

theorem throughNumber_hex {first x h : Char} {rest : List Char}
    (hex : first = '0' ∧ (x = 'x' ∨ x = 'X') ∧ isHexPart h = true) :
    throughNumber first (x :: h :: rest) =
      (((Cut.spanning isHexPart rest).andThen (optionally ['l', 'L'])).cons h).cons x := by
  simp [throughNumber, hex]

theorem beginsHex_of_seam {first : Char} {cs w w' : List Char}
    (hex : BeginsHex first (cs ++ w')) (seam : Seam w') : BeginsHex first (cs ++ w) := by
  obtain ⟨x, h, rest, shape, zero, mark, digit⟩ := hex
  rcases cs with _ | ⟨c, _ | ⟨d, cs⟩⟩
  · have shape : w' = x :: h :: rest := shape
    subst shape
    rcases mark with rfl | rfl
    · exact absurd (seam 'x' rfl) (by decide)
    · exact absurd (seam 'X' rfl) (by decide)
  · simp only [List.singleton_append, List.cons.injEq] at shape
    obtain ⟨_, shape⟩ := shape
    subst shape
    rw [apart_isHexPart h (seam h rfl)] at digit
    cases digit
  · simp only [List.cons_append, List.cons.injEq] at shape
    obtain ⟨rfl, rfl, _⟩ := shape
    exact ⟨c, d, cs ++ w, rfl, zero, mark, digit⟩

theorem curbed_throughNumber (first : Char) : Curbed (throughNumber first) := by
  intro a z w w' found seam
  by_cases hex : BeginsHex first (a ++ (z ++ w))
  · obtain ⟨x, h, rest, shape, begins⟩ := hex
    have taken := congrArg Prod.fst found
    have left := congrArg Prod.snd found
    rw [shape, throughNumber_hex begins] at taken left
    rcases a with _ | ⟨x', _ | ⟨h', a⟩⟩
    · cases taken
    · cases taken
    · simp only [List.cons_append, List.cons.injEq] at shape
      obtain ⟨rfl, rfl, rfl⟩ := shape
      simp only [Cut.cons, List.cons.injEq, true_and] at taken left
      have inner : (Cut.spanning isHexPart (a ++ (z ++ w))).andThen (optionally ['l', 'L']) =
          (a, z ++ w) := Prod.ext taken left
      have suffixes : Apart (['l', 'L'] : List Char).contains := apart_of_cases (by decide)
      have curbed := (curbed_spanning apart_isHexPart).andThen (curbed_optionally suffixes)
        (Cut.spanning_of _) (optionally_of _)
      have inner' := curbed a z w w' inner seam
      rw [List.cons_append, List.cons_append, throughNumber_hex begins]
      simp only [inner', Cut.cons]
  · have decimal : ¬ BeginsHex first (a ++ (z ++ w')) := by
      intro begins
      rw [← List.append_assoc] at begins
      refine hex ?_
      rw [← List.append_assoc]
      exact beginsHex_of_seam begins seam
    rw [throughNumber_decimal hex] at found
    rw [throughNumber_decimal decimal]
    exact curbed_throughDecimal a z w w' found seam

theorem throughCommentEnd_ne_nil {cs : List Char} {cut : Cut}
    (found : throughCommentEnd cs = some cut) : cut.1 ≠ [] := by
  fun_cases throughCommentEnd cs with
  | case1 => cases found
  | case2 =>
    cases found
    exact List.cons_ne_nil _ _
  | case3 c rest other =>
    rw [throughCommentEnd] at found
    · obtain ⟨inner, _, rfl⟩ := Option.map_eq_some_iff.mp found
      exact List.cons_ne_nil _ _
    · exact other

theorem throughCommentEnd_self {cs : List Char} {cut : Cut}
    (found : throughCommentEnd cs = some cut) (more : List Char) :
    throughCommentEnd (cut.1 ++ more) = some (cut.1, more) := by
  fun_induction throughCommentEnd cs generalizing cut with
  | case1 => cases found
  | case2 rest =>
    cases found
    rfl
  | case3 c rest other ih =>
    obtain ⟨inner, fromRest, rfl⟩ := Option.map_eq_some_iff.mp found
    obtain ⟨d, t, head⟩ := List.exists_cons_of_ne_nil (throughCommentEnd_ne_nil fromRest)
    have whole : inner.1 ++ inner.2 = rest := throughCommentEnd_of fromRest
    rw [head] at whole
    rw [Cut.cons, List.cons_append, throughCommentEnd, ih fromRest, Option.map_some]
    · rfl
    · intro rest' star shape
      rw [head] at shape
      obtain ⟨slash, _⟩ := List.cons.inj shape
      exact other (t ++ inner.2) star (by rw [← whole, slash]; rfl)

theorem two_le_length_of_throughBlockEnd {cs : List Char} {cut : Cut}
    (found : throughBlockEnd cs = some cut) : 2 ≤ cut.1.length := by
  fun_induction throughBlockEnd cs generalizing cut with
  | case1 => cases found
  | case2 rest =>
    cases found
    exact Nat.le_succ 2
  | case3 c rest other ih =>
    obtain ⟨inner, fromRest, rfl⟩ := Option.map_eq_some_iff.mp found
    exact Nat.le_succ_of_le (ih fromRest)

theorem throughBlockEnd_self {cs : List Char} {cut : Cut}
    (found : throughBlockEnd cs = some cut) (more : List Char) :
    throughBlockEnd (cut.1 ++ more) = some (cut.1, more) := by
  fun_induction throughBlockEnd cs generalizing cut with
  | case1 => cases found
  | case2 rest =>
    cases found
    rfl
  | case3 c rest other ih =>
    obtain ⟨inner, fromRest, rfl⟩ := Option.map_eq_some_iff.mp found
    have long := two_le_length_of_throughBlockEnd fromRest
    have whole : inner.1 ++ inner.2 = rest := throughBlockEnd_of fromRest
    rw [Cut.cons, List.cons_append, throughBlockEnd, ih fromRest, Option.map_some]
    · rfl
    · intro rest' quote shape
      rcases head : inner.1 with _ | ⟨d, _ | ⟨e, t⟩⟩
      · rw [head] at long
        cases long
      · rw [head] at long
        cases long
        contradiction
      · rw [head] at shape whole
        simp only [List.cons_append, List.cons.injEq] at shape
        exact other (t ++ inner.2) quote (by rw [← whole, shape.1, shape.2.1]; rfl)

theorem ne_backslash {c : Char} {rest : List Char} (last : c = '\\' → rest = [] → False)
    (next : ∀ d ds, c = '\\' → rest = d :: ds → False) : c ≠ '\\' := by
  intro same
  cases rest with
  | nil => exact last same rfl
  | cons d ds => exact next d ds same rfl

theorem throughQuote_cons_of_ne {quote c : Char} (other : c ≠ '\\') (rest : List Char) :
    throughQuote quote (c :: rest) =
      if c = quote then some ([c], rest)
      else if c = '\n' then none
      else (throughQuote quote rest).map (Cut.cons c) := by
  rw [throughQuote]
  · intro last
    exact absurd last other
  · intro d ds behind
    exact absurd behind other

theorem throughQuote_self {quote : Char} {cs : List Char} {cut : Cut}
    (found : throughQuote quote cs = some cut) (more : List Char) :
    throughQuote quote (cut.1 ++ more) = some (cut.1, more) := by
  fun_induction throughQuote quote cs generalizing cut with
  | case1 | case2 | case3 => cases found
  | case4 c rest same ih =>
    obtain ⟨inner, fromRest, rfl⟩ := Option.map_eq_some_iff.mp found
    rw [Cut.cons, Cut.cons, List.cons_append, List.cons_append, throughQuote, if_neg same,
      ih fromRest]
    rfl
  | case5 rest last next =>
    cases found
    rw [List.singleton_append, throughQuote_cons_of_ne (ne_backslash last next), if_pos rfl]
  | case6 => cases found
  | case7 c rest last next open' sameLine ih =>
    obtain ⟨inner, fromRest, rfl⟩ := Option.map_eq_some_iff.mp found
    rw [Cut.cons, List.cons_append, throughQuote_cons_of_ne (ne_backslash last next),
      if_neg open', if_neg sameLine, ih fromRest]
    rfl

theorem throughQuote_quote (rest : List Char) :
    throughQuote '"' ('"' :: rest) = some (['"'], rest) := by
  simp [throughQuote]

/-- A string on one line is found again, unless an empty one is followed by a quote. -/
theorem throughString_of_throughQuote {cs : List Char} {cut : Cut}
    (found : throughQuote '"' cs = some cut) {more : List Char}
    (closed : cut.1 = ['"'] → more.head? ≠ some '"') :
    throughString (cut.1 ++ more) = some (cut.1, more) := by
  have again := throughQuote_self found more
  unfold throughString
  split
  · rename_i rest shape
    have none : ∀ {t : List Char}, cut.1 = '"' :: t → t = [] := by
      intro t head
      have whole : cut.1 ++ cut.2 = cs := throughQuote_of found
      rw [← whole, head, List.cons_append, throughQuote_quote] at found
      have taken := congrArg Prod.fst (Option.some.inj found)
      rw [head] at taken
      exact (List.cons.inj taken).2.symm
    rcases head : cut.1 with _ | ⟨d, t⟩
    · rw [head, List.nil_append] at again
      rw [head, List.nil_append] at shape
      rw [shape, throughQuote_quote] at again
      cases again
    · rw [head, List.cons_append] at shape
      obtain ⟨quote, behind⟩ := List.cons.inj shape
      rw [quote] at head
      have single := none head
      rw [single, List.nil_append] at behind
      rw [single] at head
      exact absurd (congrArg List.head? behind) (closed head)
  · exact again

theorem throughString_self {cs : List Char} {cut : Cut} (found : throughString cs = some cut)
    {more : List Char} (closed : cut.1 = ['"'] → more.head? ≠ some '"') :
    throughString (cut.1 ++ more) = some (cut.1, more) := by
  unfold throughString at found
  split at found
  · split at found
    · rename_i inner block
      cases found
      have again := throughBlockEnd_self block more
      simp only [Cut.cons, List.cons_append, throughString, again]
    · exact throughString_of_throughQuote found closed
  · exact throughString_of_throughQuote found closed

namespace Piece

/-- The piece begins a comment or a text block that the text behind it might close. -/
def opens : Piece → List Char → Bool
  | token (.operator '/'), rest => rest.head? == some '*'
  | token (.string "\"\""), rest => rest.head? == some '"'
  | _, _ => false

section Scanners

variable {piece : Piece} {t z w w' : List Char}

/-- The piece made of what a scanner took tells what that was. -/
theorem cut_of_text (front : List Char) {f : List Char → Piece}
    (texts : ∀ taken, (f taken).text = front ++ taken) {cut : Cut} {rest : List Char}
    (found : (f cut.1, cut.2) = (piece, rest)) (whole : piece.text = front ++ t) :
    cut = (t, rest) ∧ f t = piece := by
  obtain ⟨same, left⟩ := Prod.mk.inj found
  have taken : front ++ cut.1 = front ++ t := by rw [← texts, same, whole]
  have taken := List.append_cancel_left taken
  exact ⟨Prod.ext taken left, by rw [← taken, same]⟩

theorem not_gap_of_solid {blanks : List Char} (solid : z ≠ [] ∨ ∃ t, gap blanks = token t) :
    z ≠ [] := by
  refine solid.resolve_right fun known => ?_
  obtain ⟨_, same⟩ := known
  cases same

theorem next?_quote (cs : List Char) :
    next? ('"' :: cs) = (throughString cs).map fun cut =>
      (token (.string (String.ofList ('"' :: cut.1))), cut.2) := by
  have notGap : isGapChar '"' = false := by decide
  have notName : isNameStart '"' = false := by decide
  have notDigit : '"'.isDigit = false := by decide
  simp only [next?, notGap, notName, notDigit, Bool.false_eq_true, ↓reduceIte]
  rfl

theorem afterSlash_operator {cs : List Char} (line : cs.head? ≠ some '/')
    (block : cs.head? ≠ some '*') : afterSlash cs = (token (.operator '/'), cs) := by
  unfold afterSlash
  split
  · exact absurd rfl line
  · exact absurd rfl block
  · rfl

theorem seam_afterSlash (found : afterSlash (t ++ (z ++ w)) = (piece, z ++ w))
    (whole : piece.text = '/' :: t) (seam : Seam w') (solid : z ≠ [] ∨ ∃ t, piece = token t)
    (closed : piece.opens z = false) : afterSlash (t ++ (z ++ w')) = (piece, z ++ w') := by
  rcases t with _ | ⟨d, t⟩
  · rw [List.nil_append] at found ⊢
    have operator : piece = token (.operator '/') := by
      unfold afterSlash at found
      split at found
      · obtain ⟨rfl, _⟩ := Prod.mk.inj found
        cases whole
      · split at found
        · obtain ⟨rfl, _⟩ := Prod.mk.inj found
          rw [text_ofComment] at whole
          cases whole
        · exact (Prod.mk.inj found).1.symm
      · exact (Prod.mk.inj found).1.symm
    subst operator
    refine afterSlash_operator ?_ ?_
    · cases z with
      | nil =>
        intro line
        exact absurd (seam '/' line) (by decide)
      | cons d z =>
        intro line
        cases line
        cases congrArg Prod.fst found
    · cases z with
      | nil =>
        intro block
        exact absurd (seam '*' block) (by decide)
      | cons d z =>
        intro block
        cases block
        cases closed
  · by_cases line : d = '/'
    · subst line
      obtain ⟨cut, rfl⟩ := cut_of_text ['/', '/'] (f := fun taken => gap ('/' :: '/' :: taken))
        (fun _ => rfl) found whole
      have again := spanning_within cut (not_gap_of_solid solid) w'
      simp only [List.cons_append, afterSlash, again]
    · by_cases block : d = '*'
      · subst block
        rw [List.cons_append, afterSlash] at found
        split at found
        · rename_i cut through
          obtain ⟨rfl, rfl⟩ := cut_of_text ['/', '*'] (f := fun taken => ofComment ('/' :: '*' :: taken))
            (fun _ => text_ofComment _) found whole
          rw [List.cons_append, afterSlash, throughCommentEnd_self through]
        · obtain ⟨rfl, _⟩ := Prod.mk.inj found
          cases whole
      · rw [List.cons_append, afterSlash_operator] at found
        · obtain ⟨rfl, _⟩ := Prod.mk.inj found
          cases whole
        · intro same
          exact line (Option.some.inj same)
        · intro same
          exact block (Option.some.inj same)

theorem afterDot_dot {cs : List Char} (other : ¬ ['.', '.'] <+: cs) :
    afterDot cs = (token (.symbol .dot), cs) := by
  unfold afterDot
  split
  · rename_i rest
    exact absurd ⟨rest, rfl⟩ other
  · rfl

theorem seam_afterDot (found : afterDot (t ++ (z ++ w)) = (piece, z ++ w))
    (whole : piece.text = '.' :: t) (seam : Seam w') :
    afterDot (t ++ (z ++ w')) = (piece, z ++ w') := by
  by_cases dots : ['.', '.'] <+: t ++ (z ++ w)
  · obtain ⟨rest, shape⟩ := dots
    rw [← shape] at found
    obtain ⟨rfl, _⟩ := Prod.mk.inj found
    have taken : t = ['.', '.'] := (List.cons.inj whole).2.symm
    rw [taken]
    rfl
  · rw [afterDot_dot dots] at found
    obtain ⟨rfl, left⟩ := Prod.mk.inj found
    have taken : t = [] := (List.cons.inj whole).2.symm
    subst taken
    refine afterDot_dot fun more => dots ?_
    rw [List.nil_append] at more ⊢
    rcases z with _ | ⟨d, _ | ⟨e, z⟩⟩
    · obtain ⟨rest, shape⟩ := more
      have shape : '.' :: '.' :: rest = w' := shape
      rw [← shape] at seam
      exact absurd (seam '.' rfl) (by decide)
    · obtain ⟨rest, shape⟩ := more
      have shape : '.' :: '.' :: rest = d :: w' := shape
      obtain ⟨_, shape⟩ := List.cons.inj shape
      rw [← shape] at seam
      exact absurd (seam '.' rfl) (by decide)
    · obtain ⟨rest, shape⟩ := more
      have shape : '.' :: '.' :: rest = d :: e :: (z ++ w') := shape
      simp only [List.cons.injEq] at shape
      obtain ⟨rfl, rfl, _⟩ := shape
      exact ⟨z ++ w, rfl⟩

theorem seam_throughString {cut : Cut} (found : throughString (t ++ (z ++ w)) = some cut)
    (taken : cut.1 = t) (seam : Seam w')
    (closed : (token (.string (String.ofList ('"' :: t)))).opens z = false) :
    throughString (t ++ (z ++ w')) = some (t, z ++ w') := by
  have again := @throughString_self _ _ found (z ++ w')
  rw [taken] at again
  refine again fun empty => ?_
  subst empty
  cases z with
  | nil =>
    intro quote
    exact absurd (seam '"' quote) (by decide)
  | cons d z =>
    intro quote
    cases quote
    cases closed

end Scanners

/-- What a piece is does not depend on what follows behind a seam, unless it is left open. -/
theorem Stands.seam {piece : Piece} {z w w' : List Char} (stands : piece.Stands (z ++ w))
    (seam : Seam w') (solid : z ≠ [] ∨ ∃ t, piece = token t) (closed : piece.opens z = false) :
    piece.Stands (z ++ w') := by
  obtain ⟨c, t, head⟩ := List.exists_cons_of_ne_nil stands.text_ne_nil
  unfold Stands at stands ⊢
  rw [head, List.cons_append] at stands ⊢
  simp only [next?] at stands ⊢
  split at stands
  · rename_i blank
    obtain ⟨cut, rfl⟩ := cut_of_text [c] (f := fun taken => gap (c :: taken)) (fun _ => rfl)
      (Option.some.inj stands) head
    rw [if_pos blank, spanning_within cut (not_gap_of_solid solid) w']
    rfl
  rename_i blank
  rw [if_neg blank]
  split at stands
  · rename_i start
    obtain ⟨cut, rfl⟩ := cut_of_text [c] (f := fun taken => ofWord (c :: taken))
      (fun _ => text_ofWord _) (Option.some.inj stands) head
    rw [if_pos start, curbed_spanning apart_isNamePart _ _ _ _ cut seam]
    rfl
  rename_i word
  rw [if_neg word]
  split at stands
  · rename_i digit
    obtain ⟨cut, rfl⟩ := cut_of_text [c]
      (f := fun taken => token (.number (String.ofList (c :: taken))))
      (fun _ => String.toList_ofList) (Option.some.inj stands) head
    rw [if_pos digit, curbed_throughNumber c _ _ _ _ cut seam]
    rfl
  rename_i digit
  rw [if_neg digit]
  split at stands
  · rename_i slash
    subst slash
    rw [if_pos rfl, seam_afterSlash (Option.some.inj stands) head seam solid closed]
  rename_i slash
  rw [if_neg slash]
  split at stands
  · rename_i dot
    subst dot
    rw [if_pos rfl, seam_afterDot (Option.some.inj stands) head seam]
  rename_i dot
  rw [if_neg dot]
  split at stands
  · rename_i quote
    subst quote
    obtain ⟨_, through, same⟩ := Option.map_eq_some_iff.mp stands
    obtain ⟨rfl, rfl⟩ := cut_of_text ['"']
      (f := fun taken => token (.string (String.ofList ('"' :: taken))))
      (fun _ => String.toList_ofList) same head
    rw [if_pos rfl, seam_throughString through rfl seam closed]
    rfl
  rename_i quote
  rw [if_neg quote]
  split at stands
  · rename_i quote
    subst quote
    obtain ⟨_, through, same⟩ := Option.map_eq_some_iff.mp stands
    obtain ⟨rfl, rfl⟩ := cut_of_text ['\'']
      (f := fun taken => token (.character (String.ofList ('\'' :: taken))))
      (fun _ => String.toList_ofList) same head
    rw [if_pos rfl, throughQuote_self through]
    rfl
  rename_i apostrophe
  rw [if_neg apostrophe]
  split at stands
  · rename_i s symbol
    obtain ⟨rfl, _⟩ := Prod.mk.inj (Option.some.inj stands)
    have single : t = [] := by
      have one := Symbol.text_ofChar? symbol
      rw [text, Token.text, one] at head
      exact (List.cons.inj head).2.symm
    subst single
    rw [List.nil_append]
  · split at stands
    · rename_i operator
      obtain ⟨rfl, _⟩ := Prod.mk.inj (Option.some.inj stands)
      have single : t = [] := by
        simp [text, Token.text] at head
        exact head
      subst single
      rw [if_pos operator, List.nil_append]
    · cases stands

end Piece

end CreatorSynth
