import Mathlib.Data.List.TakeWhile
import CreatorSynth.Proofs.Printer.Fits
import CreatorSynth.Proofs.Printer.Params

/-! Dotted names with the word `record` among their segments. As the first segment the word is read
like any name. Further segments are found by looking for a dot and a name, and there the word, being
a keyword, ends the dotted name that is read. -/
namespace CreatorSynth
open Text

/-- The further segments in front of the word `record`. -/
def readSegments (others : List String) : List String :=
  others.takeWhile (· ≠ Keyword.recordWord.text)

/-- The further segments from the word `record` on. -/
def leftSegments (others : List String) : List String :=
  others.dropWhile (· ≠ Keyword.recordWord.text)

theorem readSegments_append_leftSegments (others : List String) :
    readSegments others ++ leftSegments others = others :=
  List.takeWhile_append_dropWhile

theorem leftSegments_eq_nil_iff {others : List String} :
    leftSegments others = [] ↔ Keyword.recordWord.text ∉ others := by
  rw [leftSegments, List.dropWhile_eq_nil_iff]
  constructor
  · intro none member
    simpa using none _ member
  · intro apart s member
    simpa using ne_of_mem_of_not_mem member apart

theorem leftSegments_cases (others : List String) : leftSegments others = [] ∨
    ∃ more, leftSegments others = Keyword.recordWord.text :: more := by
  cases left : leftSegments others with
  | nil => exact .inl rfl
  | cons s more =>
    have stops := List.head?_dropWhile_not (· ≠ Keyword.recordWord.text) others
    rw [← leftSegments, left] at stops
    exact .inr ⟨more, by simpa using stops⟩

theorem isPath_readSegments {first : String} {others : List String}
    (words : ∀ s ∈ first :: others, IsWord s) :
    IsPath (joinSegments (first :: readSegments others)) := by
  refine isPath_joinSegments (words first List.mem_cons_self) fun s member => ?_
  have other : s ≠ Keyword.recordWord.text := by simpa using List.mem_takeWhile_imp member
  have inside : s ∈ others := (List.takeWhile_sublist _).mem member
  exact (words s (List.mem_cons_of_mem _ inside)).isName other

namespace Parser
open Piece

variable {src : Source} {more : List Piece} {first : String} {others : List String}

theorem dottedPieces_joinSegments (words : ∀ s ∈ first :: others, IsWord s) :
    dottedPieces (joinSegments (first :: others)) =
      .token (wordToken first) :: others.flatMap segmentPieces := by
  obtain ⟨first', others', split, shape⟩ := exists_dottedPieces (joinSegments (first :: others))
  have clean : ∀ s ∈ first :: others, DotFree s := fun s member => (words s member).dotFree
  rw [segments_joinSegments (List.cons_ne_nil _ _) clean] at split
  cases split
  exact shape

theorem dottedPieces_readSegments (words : ∀ s ∈ first :: others, IsWord s) :
    dottedPieces (joinSegments (first :: others)) =
      dottedPieces (joinSegments (first :: readSegments others)) ++
        (leftSegments others).flatMap segmentPieces := by
  have inside : ∀ s ∈ first :: readSegments others, IsWord s := by
    intro s member
    exact words s (List.cons_subset_cons first (List.takeWhile_sublist _).subset member)
  rw [dottedPieces_joinSegments words, dottedPieces_joinSegments inside, List.cons_append,
    ← List.flatMap_append, readSegments_append_leftSegments]

theorem head?_leftSegments {s : Symbol} (other : s ≠ .dot)
    (ends : (tokens more).head? ≠ some (.symbol s)) :
    (tokens ((leftSegments others).flatMap segmentPieces ++ more)).head? ≠ some (.symbol s) := by
  rcases leftSegments_cases others with none | ⟨behind, left⟩
  · rw [none]
    exact ends
  · rw [left]
    intro same
    cases same
    exact other rfl

/-- A dot and the word in front of it are no further segment. -/
theorem endsPath_leftSegments (ends : EndsPath more) :
    EndsPath ((leftSegments others).flatMap segmentPieces ++ more) := by
  rcases leftSegments_cases others with none | ⟨behind, left⟩
  · rw [none]
    exact ends
  · rw [left]
    intro s same
    cases same

theorem endsType_leftSegments (ends : EndsType more) :
    EndsType ((leftSegments others).flatMap segmentPieces ++ more) where
  angle := head?_leftSegments (by decide) ends.angle
  path := endsPath_leftSegments ends.path
  bracket := head?_leftSegments (by decide) ends.bracket

theorem takes_readSegments (words : ∀ s ∈ first :: others, IsWord s) (ends : EndsPath more) :
    Takes src qualifiedName (dottedPieces (joinSegments (first :: readSegments others)))
      ((leftSegments others).flatMap segmentPieces ++ more)
      (· = joinSegments (first :: readSegments others)) :=
  takes_qualifiedName (isPath_readSegments words) (endsPath_leftSegments ends)

theorem takes_typeRef_readSegments (words : ∀ s ∈ first :: others, IsWord s)
    (ends : EndsType more) :
    Takes src typeRef (dottedPieces (joinSegments (first :: readSegments others)))
      ((leftSegments others).flatMap segmentPieces ++ more)
      (· = .simple (joinSegments (first :: readSegments others))) := by
  rw [← TypeRef.pieces_simple]
  exact takes_typeRef (TypeRef.worded_simple (isPath_readSegments words))
    (endsType_leftSegments ends)

/-- Of a dotted name what stands in front of a further segment `record` is read, and all of the
others is left. -/
theorem run_joinSegments (words : ∀ s ∈ first :: others, IsWord s) (d : Dialect) :
    (∃ c, qualifiedName.run (joinSegments (first :: others)) d =
        .ok (joinSegments (first :: readSegments others), c) ∧
      c.rest.map (·.token) = tokens ((leftSegments others).flatMap segmentPieces)) ∧
    ∃ c, typeRef.run (joinSegments (first :: others)) d =
        .ok (.simple (joinSegments (first :: readSegments others)), c) ∧
      c.rest.map (·.token) = tokens ((leftSegments others).flatMap segmentPieces) := by
  have split := dottedPieces_readSegments words
  have whole := flatMap_text_dottedPieces (joinSegments (first :: others))
  have fit : Fit (dottedPieces (joinSegments (first :: others))) [] := by
    refine Sewn.fit_plain (sewn_dottedPieces ?_ rfl)
    rwa [segments_joinSegments (List.cons_ne_nil _ _) fun s member => (words s member).dotFree]
  rw [split, ← List.append_nil ((leftSegments others).flatMap segmentPieces)] at whole fit
  constructor
  · obtain ⟨_, c, run, left, rfl⟩ := run_of_takes whole fit
      (fun src => takes_readSegments words (endsPath_of_head? nofun)) d
    rw [List.append_nil] at left
    exact ⟨c, run, left⟩
  · obtain ⟨_, c, run, left, rfl⟩ := run_of_takes whole fit
      (fun src => takes_typeRef_readSegments words (endsType_of_head? nofun)) d
    rw [List.append_nil] at left
    exact ⟨c, run, left⟩

theorem whole_iff_of_run {α : Type} {p : Parser α} {text : String} {d : Dialect} {c : Cursor}
    (answer : String → α)
    (run : p.run text d = .ok (answer (joinSegments (first :: readSegments others)), c))
    (left : c.rest.map (·.token) = tokens ((leftSegments others).flatMap segmentPieces)) :
    (∃ c, p.run text d = .ok (answer (joinSegments (first :: others)), c) ∧ c.rest = []) ↔
      Keyword.recordWord.text ∉ others := by
  constructor
  · rintro ⟨c', run', ended⟩
    have same : c = c' := by
      rw [run'] at run
      exact (Prod.mk.inj (Except.ok.inj run)).2.symm
    rw [same, ended, List.map_nil] at left
    rw [← leftSegments_eq_nil_iff]
    rcases leftSegments_cases others with none | ⟨more, some⟩
    · exact none
    · rw [some] at left
      cases left
  · intro apart
    have none := leftSegments_eq_nil_iff.mpr apart
    have everything := readSegments_append_leftSegments others
    rw [none, List.append_nil] at everything
    rw [none] at left
    rw [everything] at run
    exact ⟨c, run, List.map_eq_nil_iff.mp left⟩

/-- The whole of a dotted name is read just if none of its further segments is that word. -/
theorem run_joinSegments_whole_iff (words : ∀ s ∈ first :: others, IsWord s) (d : Dialect) :
    ((∃ c, qualifiedName.run (joinSegments (first :: others)) d =
        .ok (joinSegments (first :: others), c) ∧ c.rest = []) ↔
      Keyword.recordWord.text ∉ others) ∧
    ((∃ c, typeRef.run (joinSegments (first :: others)) d =
        .ok (.simple (joinSegments (first :: others)), c) ∧ c.rest = []) ↔
      Keyword.recordWord.text ∉ others) := by
  obtain ⟨⟨c, name, left⟩, ⟨c', type, left'⟩⟩ := run_joinSegments words d
  exact ⟨whole_iff_of_run (fun name => name) name left, whole_iff_of_run TypeRef.simple type left'⟩

section Packages

theorem fails_endDeclaration (java : src.dialect = .java)
    (other : (tokens more).head? ≠ some (.symbol .semicolon)) : Fails src endDeclaration more := by
  refine ⟨fun {c before} here => ?_⟩
  rw [on_endDeclaration, java]
  dsimp only
  rw [on_expect, here.head, if_neg other]
  exact ⟨_, rfl⟩

/-- A package declaration up to its name. -/
def packagePieces (name : String) : List Piece :=
  .token (.keyword .packageWord) :: .gap [' '] :: dottedPieces name

theorem fails_packageItem (java : src.dialect = .java) (words : ∀ s ∈ first :: others, IsWord s)
    (inside : Keyword.recordWord.text ∈ others) :
    Fails src packageItem (packagePieces (joinSegments (first :: others)) ++ more) := by
  obtain ⟨behind, left⟩ := (leftSegments_cases others).resolve_left fun none =>
    leftSegments_eq_nil_iff.mp none inside
  rw [packagePieces, dottedPieces_readSegments words, List.cons_append, List.cons_append,
    List.append_assoc]
  refine .step (takes_expectKeyword .packageWord) fun _ _ => .gap ?_
  refine .behind (takes_qualifiedName (isPath_readSegments words) ?_) fun _ _ => ?_
  · rw [left]
    intro s same
    cases same
  · refine (fails_endDeclaration java ?_).bind
    rw [left]
    intro same
    cases same

theorem fails_unit (java : src.dialect = .java) (words : ∀ s ∈ first :: others, IsWord s)
    (inside : Keyword.recordWord.text ∈ others) :
    Fails src unit (packagePieces (joinSegments (first :: others)) ++ more) := by
  have atEnd : Takes src atEnd [] (packagePieces (joinSegments (first :: others)) ++ more)
      (· = false) := .of_same fun {c before} here => by
    refine ⟨false, c, ?_, rfl, rfl⟩
    rw [on_atEnd, here.rest]
    rfl
  refine (Fails.many (.look atEnd fun _ same => ?_)).bind
  subst same
  refine Fails.bind (.look (takes_accept_none nofun) fun _ same => ?_)
  subst same
  refine .look takes_nextStart fun start _ => .look (takes_docBefore start) fun doc _ => ?_
  have noModifiers : Takes src modifiers []
      (packagePieces (joinSegments (first :: others)) ++ more) fun _ => True :=
    (takes_many_none (takes_modifier_none_of_token rfl fun _ => rfl)).finish
      fun _ _ => .pure trivial
  refine .look noModifiers fun _ _ => .look (takes_upcoming 2) fun _ same => ?_
  subst same
  exact fails_packageItem java words inside

end Packages

end Parser

/-- No source is read that is declared to be in a package with such a name. -/
theorem parseUnit_package_eq_error {first : String} {others : List String} {text rest : String}
    (words : ∀ s ∈ first :: others, IsWord s) (inside : Keyword.recordWord.text ∈ others)
    (declared : text = "package " ++ joinSegments (first :: others) ++ ";" ++ rest) :
    ∃ e, parseUnit text .java = .error e := by
  have whole : text.toList = (Parser.packagePieces (joinSegments (first :: others))).flatMap
      Piece.text ++ ';' :: rest.toList := by
    rw [declared, Parser.packagePieces]
    simp [flatMap_text_dottedPieces, Piece.text, Token.text, Keyword.text]
  have fit : Piece.Fit (Parser.packagePieces (joinSegments (first :: others)))
      (';' :: rest.toList) := by
    refine Piece.Sewn.fit_plain (.keyword (Piece.breaks_space _ _)
      (.space (Piece.sewn_dottedPieces ?_ rfl)))
    rwa [segments_joinSegments (List.cons_ne_nil _ _) fun s member => (words s member).dotFree]
  obtain ⟨e, failed⟩ := Parser.run_error_of_fails whole fit rfl
    fun src more java => Parser.fails_unit java words inside
  exact ⟨e, by rw [parseUnit, failed]; rfl⟩

theorem package_record_unread :
    ∃ e, parseUnit "package a.record; class A \x7b \x7d" .java = .error e :=
  @parseUnit_package_eq_error "a" ["record"] _ " class A \x7b \x7d" (by decide) (by decide)
    (by decide)

end CreatorSynth
