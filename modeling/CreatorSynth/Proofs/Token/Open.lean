import CreatorSynth.Proofs.Token.Splice

/-! Comments and text blocks that are begun and not ended. A slash with a star behind it and an empty
string with a quote behind it stay tokens of their own only as long as nothing further on closes what
they open, so pieces are cut alike in front of any text that does not. -/
namespace CreatorSynth
open Text

/-- The text does not hold what closes a comment or a text block. -/
def Free (closer cs : List Char) : Prop :=
  ¬ closer <:+: cs

section Free

variable {closer cs ds : List Char} {c : Char}

theorem Free.within (free : Free closer ds) (inside : cs <:+: ds) : Free closer cs :=
  fun found => free (found.trans inside)

/-- Nothing closes across a character that no closer holds. -/
theorem Free.join (other : c ∉ closer) (first : Free closer cs) (second : Free closer ds) :
    Free closer (cs ++ c :: ds) := by
  rintro ⟨front, back, whole⟩
  rw [List.append_assoc] at whole
  rcases List.append_eq_append_iff.mp whole with ⟨rest, rfl, split⟩ | ⟨rest, rfl, split⟩
  · rcases List.append_eq_append_iff.mp split with ⟨more, rfl, _⟩ | ⟨more, rfl, last⟩
    · exact first ⟨front, more, by rw [List.append_assoc]⟩
    · cases more with
      | nil =>
        rw [List.append_nil] at other
        exact first ⟨front, [], by simp⟩
      | cons d more =>
        obtain ⟨rfl, _⟩ := List.cons.inj last
        exact other (List.mem_append_right _ List.mem_cons_self)
  · cases rest with
    | nil =>
      cases closer with
      | nil => exact first ⟨cs, [], by simp⟩
      | cons d closer =>
        obtain ⟨rfl, _⟩ := List.cons.inj split
        exact other List.mem_cons_self
    | cons d rest =>
      obtain ⟨rfl, tail⟩ := List.cons.inj split
      exact second ⟨rest, back, tail ▸ List.append_assoc rest closer back⟩

theorem Free.append (apart : ∀ c ∈ cs, c ∉ closer) (some : closer ≠ []) (free : Free closer ds) :
    Free closer (cs ++ ds) := by
  induction cs with
  | nil => exact free
  | cons c cs ih =>
    have empty : Free closer [] := fun found => some (List.infix_nil.mp found)
    exact Free.join (apart c List.mem_cons_self) empty
      (ih fun d member => apart d (List.mem_cons_of_mem _ member))

end Free

theorem throughCommentEnd_eq_none_iff {cs : List Char} :
    throughCommentEnd cs = none ↔ Free ['*', '/'] cs := by
  fun_induction throughCommentEnd cs with
  | case1 => exact ⟨fun _ found => (by decide : ¬ ['*', '/'] <:+: []) found, fun _ => rfl⟩
  | case2 rest => exact ⟨by simp, fun free => absurd ⟨[], rest, rfl⟩ free⟩
  | case3 c rest other ih =>
    rw [Option.map_eq_none_iff, ih]
    refine ⟨fun free found => ?_, fun free => free.within (List.suffix_cons c rest).isInfix⟩
    rcases List.infix_cons_iff.mp found with ⟨behind, shape⟩ | inner
    · cases shape
      exact other behind rfl rfl
    · exact free inner

namespace Piece

/-- What would end the comment or the text block that the piece begins. -/
def closer? : Piece → Option (List Char)
  | token (.operator '/') => some ['*', '/']
  | token (.string "\"\"") => some ['"', '"', '"']
  | _ => none

variable {piece : Piece} {pieces : List Piece} {closer rest w : List Char}

theorem exists_closer_of_opens (opens : piece.opens rest = true) :
    ∃ closer, piece.closer? = some closer := by
  rcases opens_cases opens with ⟨rfl, _⟩ | ⟨rfl, _⟩ <;> exact ⟨_, rfl⟩

/-- What a piece opens is not closed behind it. -/
theorem stands_iff_of_opens (known : piece.closer? = some closer) (opens : piece.opens rest = true) :
    piece.Stands rest ↔ Free closer rest.tail := by
  rcases opens_cases opens with ⟨rfl, cs, rfl⟩ | ⟨rfl, cs, rfl⟩
  · cases known
    rw [List.tail_cons, ← throughCommentEnd_eq_none_iff]
    have first : next? ('/' :: '*' :: cs) = some (afterSlash ('*' :: cs)) := rfl
    change next? ('/' :: '*' :: cs) = _ ↔ _
    rw [first, afterSlash]
    cases through : throughCommentEnd cs with
    | none => simp
    | some cut =>
      refine ⟨fun same => ?_, by simp⟩
      have length := congrArg (fun found => found.2.length) (Option.some.inj same)
      have split := congrArg List.length (throughCommentEnd_of through)
      simp only [List.length_append, List.length_cons] at length split
      omega
  · cases known
    exact stands_emptyString

/-- Among the pieces there is one that opens what that closer would close. -/
def LeavesOpen (closer : List Char) (pieces : List Piece) : Prop :=
  ∃ front piece back, pieces = front ++ piece :: back ∧ piece.opens (back.flatMap text) = true ∧
    piece.closer? = some closer

theorem LeavesOpen.closer_cases (opened : LeavesOpen closer pieces) :
    closer = ['*', '/'] ∨ closer = ['"', '"', '"'] := by
  obtain ⟨_, piece, back, _, opens, known⟩ := opened
  rcases opens_cases opens with ⟨rfl, _⟩ | ⟨rfl, _⟩ <;> cases known
  · exact .inl rfl
  · exact .inr rfl

theorem not_mem_closer_of_seam {c : Char} (opened : LeavesOpen closer pieces)
    (seam : isSeam c = true) : c ∉ closer := by
  intro member
  rcases opened.closer_cases with rfl | rfl <;> simp only [List.mem_cons, List.not_mem_nil, or_false,
    or_self] at member
  · rcases member with rfl | rfl <;> revert seam <;> decide
  · subst member
    revert seam
    decide

theorem opens_append {cs : List Char} (opens : piece.opens cs = true) (more : List Char) :
    ∃ c ds, cs = c :: ds ∧ piece.opens (cs ++ more) = true := by
  rcases opens_cases opens with ⟨rfl, ds, rfl⟩ | ⟨rfl, ds, rfl⟩ <;> exact ⟨_, ds, rfl, rfl⟩

theorem AllStand.free (stand : AllStand pieces w) (opened : LeavesOpen closer pieces) :
    Free closer w := by
  obtain ⟨front, piece, back, rfl, opens, known⟩ := opened
  have stands := (allStand_append.mp stand).2.1
  obtain ⟨c, ds, shape, further⟩ := opens_append opens w
  rw [stands_iff_of_opens known further, shape] at stands
  exact stands.within (List.suffix_append ds w).isInfix

/-- What a piece opens stays open in front of a text that does not close it. -/
theorem Stands.of_opens {cs w' : List Char} (stands : piece.Stands (cs ++ w))
    (opens : piece.opens cs = true) (seam : Seam w')
    (free : ∀ closer, piece.closer? = some closer → Free closer w') : piece.Stands (cs ++ w') := by
  obtain ⟨closer, known⟩ := exists_closer_of_opens opens
  have opened : LeavesOpen closer [piece, gap cs] :=
    ⟨[], piece, [gap cs], rfl, by simpa [text] using opens, known⟩
  obtain ⟨c, ds, shape, further⟩ := opens_append opens w
  obtain ⟨_, _, _, further'⟩ := opens_append opens w'
  rw [stands_iff_of_opens known further, shape] at stands
  rw [stands_iff_of_opens known further', shape]
  have here : Free closer ds := stands.within (List.prefix_append ds w).isInfix
  change Free closer (ds ++ w')
  cases w' with
  | nil => rwa [List.append_nil]
  | cons d w' =>
    refine Free.join (not_mem_closer_of_seam opened (seam d rfl)) here ?_
    exact (free closer known).within (List.suffix_cons d w').isInfix

/-- Pieces through a token stand in front of every seam behind which nothing closes what they leave
open. -/
theorem AllStand.seam_of_free {w' : List Char} (stand : AllStand pieces w) (seam : Seam w')
    (ends : ∀ p ∈ pieces.getLast?, ∃ t, p = token t)
    (free : ∀ closer, LeavesOpen closer pieces → Free closer w') : AllStand pieces w' := by
  refine stand.seam_of_opens seam ends fun front piece back same opens => ?_
  subst same
  apply (allStand_append.mp stand).2.1.of_opens opens seam
  exact fun closer known => free closer ⟨front, piece, back, rfl, opens, known⟩

theorem AllStand.alone (stand : AllStand pieces w)
    (ends : ∀ p ∈ pieces.getLast?, ∃ t, p = token t) : AllStand pieces [] := by
  refine stand.seam_of_free (fun _ none => nomatch none) ends fun closer opened found => ?_
  have none := List.infix_nil.mp found
  rcases opened.closer_cases with rfl | rfl <;> cases none

end Piece

end CreatorSynth
