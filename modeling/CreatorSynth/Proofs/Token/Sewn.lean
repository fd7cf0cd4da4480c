import CreatorSynth.Proofs.Token.Raw

/-! Texts sewn together from plain words and symbols and from raw texts kept as they stood. What a
raw text leaves open may be closed in a later one only, so the pieces fit as soon as no later raw text
closes it. -/
namespace CreatorSynth
open Text

namespace Piece

/-- No comment and no text block begins or ends in the text of the piece. -/
def Plain (piece : Piece) : Prop :=
  ∀ c ∈ piece.text, c ≠ '"' ∧ c ≠ '*' ∧ c ≠ '/'

instance (piece : Piece) : Decidable piece.Plain :=
  List.decidableBAll (fun c => c ≠ '"' ∧ c ≠ '*' ∧ c ≠ '/') piece.text

variable {closer rest : List Char} {pieces more : List Piece} {raws others : List (List Piece)}

/-- Pieces in front of a text: plain ones that are cut off there, and raw ones between them. -/
inductive Sewn (rest : List Char) : List Piece → List (List Piece) → Prop
  | nil : Sewn rest [] []
  | plain {piece : Piece} {pieces : List Piece} {raws : List (List Piece)}
      (plain : piece.Plain) (loose : piece.Loose (pieces.flatMap text ++ rest))
      (more : Sewn rest pieces raws) : Sewn rest (piece :: pieces) raws
  | raw {raw pieces : List Piece} {raws : List (List Piece)} (standing : Raw raw)
      (seam : Seam (pieces.flatMap text ++ rest)) (more : Sewn rest pieces raws) :
      Sewn rest (raw ++ pieces) (raw :: raws)

/-- Whatever the raw texts leave open, none of the later ones closes it. -/
def Unclosed (raws : List (List Piece)) : Prop :=
  raws.Pairwise fun first later =>
    ∀ closer, LeavesOpen closer first → Free closer (later.flatMap text)

theorem Plain.apart {piece : Piece} (plain : piece.Plain) (opened : LeavesOpen closer more) :
    ∀ c ∈ piece.text, c ∉ closer := by
  intro c member
  obtain ⟨quote, star, slash⟩ := plain c member
  rcases opened.closer_cases with rfl | rfl <;> simp [quote, star, slash]

theorem LeavesOpen.ne_nil (opened : LeavesOpen closer more) : closer ≠ [] := by
  rcases opened.closer_cases with rfl | rfl <;> nofun

namespace Sewn

theorem append (first : Sewn (more.flatMap text ++ rest) pieces raws)
    (second : Sewn rest more others) : Sewn rest (pieces ++ more) (raws ++ others) := by
  induction first with
  | nil => exact second
  | @plain piece pieces _ plain loose _ ih =>
    have further : piece.Loose ((pieces ++ more).flatMap text ++ rest) := by
      rwa [List.flatMap_append, List.append_assoc]
    exact .plain plain further ih
  | @raw _ pieces _ standing seam _ ih =>
    have further : Seam ((pieces ++ more).flatMap text ++ rest) := by
      rwa [List.flatMap_append, List.append_assoc]
    rw [List.append_assoc]
    exact .raw standing further ih

theorem onto (first : Sewn (more.flatMap text ++ rest) pieces []) (second : Sewn rest more raws) :
    Sewn rest (pieces ++ more) raws :=
  first.append second

theorem followed (first : Sewn (more.flatMap text ++ rest) pieces raws) (second : Sewn rest more []) :
    Sewn rest (pieces ++ more) raws := by
  have both := first.append second
  rwa [List.append_nil] at both

/-- Sewn pieces close only what one of their raw texts closes. -/
theorem free (sewn : Sewn rest pieces raws) {before : List Piece}
    (opened : LeavesOpen closer before) (each : ∀ raw ∈ raws, Free closer (raw.flatMap text))
    (behind : Free closer rest) : Free closer (pieces.flatMap text ++ rest) := by
  induction sewn with
  | nil => exact behind
  | plain plain _ _ ih =>
    rw [List.flatMap_cons, List.append_assoc]
    exact Free.append (plain.apart opened) opened.ne_nil (ih each)
  | @raw raw pieces raws _ seam _ ih =>
    obtain ⟨here, each⟩ := List.forall_mem_cons.mp each
    have later := ih each
    rw [List.flatMap_append, List.append_assoc]
    cases shape : pieces.flatMap text ++ rest with
    | nil => rwa [List.append_nil]
    | cons c cs =>
      rw [shape] at later seam
      exact Free.join (not_mem_closer_of_seam opened (seam c rfl)) here
        (later.within (List.suffix_cons c cs).isInfix)

/-- Sewn pieces fit if nothing that a raw text leaves open is closed behind it. -/
theorem fit (sewn : Sewn rest pieces raws) (unclosed : Unclosed raws)
    (behind : ∀ raw ∈ raws, ∀ closer, LeavesOpen closer raw → Free closer rest) :
    Fit pieces rest := by
  induction sewn with
  | nil => trivial
  | plain _ loose _ ih => exact ⟨loose, ih unclosed behind⟩
  | raw standing seam more ih =>
    obtain ⟨here, unclosed⟩ := List.pairwise_cons.mp unclosed
    obtain ⟨last, behind⟩ := List.forall_mem_cons.mp behind
    refine fit_append.mpr ⟨?_, ih unclosed behind⟩
    refine (standing.stand.seam_of_free seam standing.last fun closer opened => ?_).fit
    exact more.free opened (fun raw member => here raw member closer opened) (last closer opened)

theorem fit_nil (sewn : Sewn [] pieces raws) (unclosed : Unclosed raws) : Fit pieces [] := by
  refine sewn.fit unclosed fun raw _ closer opened found => ?_
  exact opened.ne_nil (List.infix_nil.mp found)

theorem fit_plain (sewn : Sewn rest pieces []) : Fit pieces rest :=
  sewn.fit .nil nofun

end Sewn

/-- Certain stretches of the pieces, one behind another. -/
inductive Holds : List Piece → List (List Piece) → Prop
  | nil (pieces : List Piece) : Holds pieces []
  | skip (piece : Piece) {pieces : List Piece} {raws : List (List Piece)}
      (more : Holds pieces raws) : Holds (piece :: pieces) raws
  | raw (raw : List Piece) {pieces : List Piece} {raws : List (List Piece)}
      (more : Holds pieces raws) : Holds (raw ++ pieces) (raw :: raws)

namespace Holds

theorem skips (front : List Piece) (holds : Holds pieces raws) : Holds (front ++ pieces) raws := by
  induction front with
  | nil => exact holds
  | cons piece front ih => exact .skip piece ih

theorem append (first : Holds pieces raws) (second : Holds more others) :
    Holds (pieces ++ more) (raws ++ others) := by
  induction first with
  | nil pieces => exact second.skips pieces
  | skip piece _ ih => exact .skip piece ih
  | raw raw _ ih =>
    rw [List.append_assoc]
    exact .raw raw ih

theorem followed (holds : Holds pieces raws) (more : List Piece) : Holds (pieces ++ more) raws := by
  have both := holds.append (.nil more)
  rwa [List.append_nil] at both

theorem one (front raw back : List Piece) : Holds (front ++ raw ++ back) [raw] := by
  rw [List.append_assoc]
  exact (Holds.raw raw (.nil back)).skips front

theorem sublist (holds : Holds pieces raws) (fewer : others.Sublist raws) : Holds pieces others := by
  induction holds generalizing others with
  | nil pieces =>
    rw [List.sublist_nil.mp fewer]
    exact .nil pieces
  | skip piece _ ih => exact .skip piece (ih fewer)
  | raw raw _ ih =>
    rcases List.sublist_cons_iff.mp fewer with without | ⟨others, rfl, behind⟩
    · exact (ih without).skips raw
    · exact .raw raw (ih behind)

theorem infix_of_mem (holds : Holds pieces raws) {raw : List Piece} (member : raw ∈ raws) :
    raw.flatMap text <:+: pieces.flatMap text := by
  induction holds with
  | nil => cases member
  | @skip piece pieces _ _ ih =>
    rw [List.flatMap_cons]
    exact (ih member).trans (List.suffix_append _ _).isInfix
  | @raw first pieces _ _ ih =>
    rw [List.flatMap_append]
    rcases List.mem_cons.mp member with rfl | later
    · exact (List.prefix_append _ _).isInfix
    · exact (ih later).trans (List.suffix_append _ _).isInfix

/-- What a stretch of a source leaves open is not closed in the stretches behind it. -/
theorem unclosed (holds : Holds pieces raws) (stand : AllStand pieces rest) : Unclosed raws := by
  induction holds with
  | nil => exact .nil
  | skip _ _ ih => exact ih stand.2
  | @raw raw pieces _ more ih =>
    obtain ⟨first, behind⟩ := allStand_append.mp stand
    refine .cons (fun later member closer opened => ?_) (ih behind)
    exact (first.free opened).within
      ((more.infix_of_mem member).trans (List.prefix_append _ _).isInfix)

end Holds

end Piece

end CreatorSynth
