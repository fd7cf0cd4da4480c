import CreatorSynth.Proofs.Parser.ImportItem
import CreatorSynth.Proofs.Parser.Items

/-! A source with an import written into it. It is read as it was, with the import behind the
others. -/
namespace CreatorSynth
open Text

namespace Parser
open Piece

variable {d : Dialect} {front back back' pieces : List Piece} {items : List Item} {mid : Cursor}

/-- The parse stands between the pieces, and what it has read does not reach behind them. -/
structure Between (front back : List Piece) (c : Cursor) : Prop where
  rest : c.rest = ahead (byteLength (front.flatMap Piece.text)) back
  lastStop : c.lastStop = byteLength (front.flatMap Piece.text)
  docFloor : c.docFloor = byteLength (front.flatMap Piece.text)
  rests : Rests front
  ends : ∀ p ∈ front.getLast?, ∃ t, p = token t

theorem between_of_ends (ends : EndsHeader (start (locate 0 pieces)) mid) :
    ∃ front back, pieces = front ++ back ∧ Between front back mid := by
  obtain ⟨taken, last, rest, stop, calm⟩ := ends.lands
  have split : ahead 0 pieces = taken ++ last :: mid.rest := rest
  have plain : last.token.isDoc = false :=
    isDoc_of_mem_ahead (split ▸ List.mem_append_right _ List.mem_cons_self)
  obtain ⟨group, more, rfl, _, begins, stops, behind⟩ := exists_ahead_token split
  have length : byteLength ((group ++ [token last.token]).flatMap Piece.text) = last.stop := by
    rw [stops, begins, List.flatMap_append, byteLength_append, Nat.zero_add, List.flatMap_singleton]
    rfl
  refine ⟨group ++ [token last.token], more, by simp, ⟨?_, ?_, ?_, ?_, ?_⟩⟩
  · rw [length, behind]
  · rw [length, stop]
  · rw [length, ends.docFloor, stop]
  · intro t final
    rw [tokens_append, tokens_token _ plain, tokens, List.getLast?_concat] at final
    rwa [← Option.some.inj final]
  · intro p final
    rw [List.getLast?_concat] at final
    exact ⟨_, (Option.some.inj final).symm⟩

theorem exists_between (parts : Parts (start (locate 0 pieces)) items mid) :
    ∃ front back, pieces = front ++ back ∧ Between front back mid := by
  cases parts with
  | behindImport ends _ _ => exact between_of_ends ends
  | behindPackage ends _ _ => exact between_of_ends ends
  | inFront same _ =>
    subst same
    exact ⟨[], pieces, rfl, ⟨rfl, rfl, rfl, nofun, nofun⟩⟩

/-- What is read in front of an import is read without it. -/
theorem follow_front (between : Between front back mid)
    (chain : Chain unitStep (sourceOfPieces d (front ++ back)) (start (locate 0 (front ++ back)))
      items mid)
    (filled : Filled front) (filled' : Filled back) (filled'' : Filled back')
    (longer : (tokens back).length ≤ (tokens back').length)
    (head : (tokens back').head? = some (.keyword .importWord)) :
    ∃ items' e, Chain unitStep (sourceOfPieces d (front ++ back'))
        (start (locate 0 (front ++ back'))) items' e ∧
      items.map (Item.plain id) = items'.map (Item.plain id) ∧
      e.rest = ahead (byteLength (front.flatMap Piece.text)) back' ∧
      mid.classes.map (ClassDecl.plain id id) = e.classes.map (ClassDecl.plain id id) := by
  have unequal : (tokens back').head? ≠ some (.symbol .equals) := by
    rw [head]
    nofun
  let W := Window.inFront d front mid.classes.length filled filled' filled'' longer unequal
  have ends : W.EndsItem 0 := by
    intro t member
    refine .inr fun u first same => ?_
    have word : (tokens back').head? = some u.token := by
      rw [← map_token_ahead (byteLength (front.flatMap Piece.text)), List.head?_map]
      exact congrArg (Option.map _) first
    rw [← same, ← Option.some.inj (head.symm.trans word)] at member
    revert member
    decide
  have inside : W.Inside 0 mid :=
    ⟨.inr (Nat.le_of_eq (congrArg List.length between.rest).symm), Nat.le_refl _⟩
  obtain ⟨items', e, us, chain', same, behind⟩ := Window.follow_items ends chain
    (at_start_inFront filled filled' filled'' longer unequal between.rests) inside
  have none : us = [] := by
    have length := congrArg List.length (behind.left.symm.trans between.rest)
    rw [List.length_append] at length
    exact List.map_eq_nil_iff.mp (List.length_eq_zero_iff.mp (Nat.add_eq_right.mp length))
  obtain ⟨cs, ds, left, right, alike⟩ := behind.classes
  refine ⟨items', e, chain', same, ?_, ?_⟩
  · rw [behind.right, none]
    rfl
  · rw [left, right]
    exact alike

section Behind

variable {front' : List Piece} {items' : List Item} {c e c' : Cursor}

theorem Between.clears (between : Between front back c) (filled : Filled front) :
    Clears front back c where
  rest := between.rest
  lastStop := Nat.le_of_eq between.lastStop
  docFloor := between.docFloor.trans between.lastStop.symm
  notes t member := by
    obtain ⟨_, some, last⟩ := filled.notes_places member
    rw [between.lastStop]
    omega

theorem steps_at_end {src : Source} (steps : Steps unitStep src c items c') (ended : c.rest = []) :
    items = [] ∧ c' = c := by
  cases steps with
  | done last => exact ⟨rfl, (unitStep_none last).2⟩
  | more first shorter _ =>
    rw [ended] at shorter
    exact absurd shorter (Nat.not_lt_zero _)

theorem follow_behind (left : Clears front back c) (right : Clears front' back e)
    (filled : Filled front) (filled' : Filled front') (filled'' : Filled back)
    (steps : Steps unitStep (sourceOfPieces d (front ++ back)) c items mid)
    (steps' : Steps unitStep (sourceOfPieces d (front' ++ back)) e items' c')
    (classes : c.classes.map (ClassDecl.plain id id) = e.classes.map (ClassDecl.plain id id)) :
    items.map (Item.plain id) = items'.map (Item.plain id) ∧
      mid.classes.map (ClassDecl.plain id id) = c'.classes.map (ClassDecl.plain id id) := by
  by_cases some : tokens back = []
  · obtain ⟨rfl, rfl⟩ := steps_at_end steps (left.rest.trans (ahead_of_tokens_nil _ some))
    obtain ⟨rfl, rfl⟩ := steps_at_end steps' (right.rest.trans (ahead_of_tokens_nil _ some))
    exact ⟨rfl, classes⟩
  have length : c.classes.length = e.classes.length := by
    simpa using congrArg List.length classes
  obtain ⟨found, c'', run, same, _, cs, ds, before, before', alike⟩ := left.follow right filled
    filled' filled'' some length (fun W _ _ whole _ => whole ▸ steady_many steady_unitStep)
    (on_many_of_steps steps)
  cases (on_many_of_steps steps').symm.trans run
  refine ⟨same, ?_⟩
  rw [before, before', List.map_append, List.map_append, classes, alike]

end Behind

section Import

variable {e c' : Cursor} {g h : List Char} {first : String} {others : List String} {n : Nat}

theorem notes_spacedImport (n : Nat) : notes n (spacedImport d g h (first :: others)) = [] := by
  have none : ∀ p ∈ spacedImport d g h (first :: others), ∀ t, p = token t → t.isDoc = false := by
    refine forall_mem_spacedImport nofun ?_ ?_ fun s _ t same => ?_
    · rintro _ ⟨⟩
      rfl
    · rintro _ _ ⟨⟩
      rfl
    · rcases ofWord_cases s with is | ⟨_, _, is⟩ <;> cases is.symm.trans same
      · exact isDoc_wordToken s
      · rfl
  refine List.filter_eq_nil_iff.mpr fun t member => ?_
  rw [none _ (mem_of_mem_locate member) _ rfl]
  exact Bool.false_ne_true

theorem lastStop_of_lands (filled : Filled pieces) (lands : Lands e c')
    (rest : e.rest = ahead n (pieces ++ back))
    (rest' : c'.rest = ahead (n + byteLength (pieces.flatMap Piece.text)) back) :
    n < c'.lastStop ∧ c'.lastStop ≤ n + byteLength (pieces.flatMap Piece.text) := by
  obtain ⟨taken, last, split, stop, _⟩ := lands
  rw [rest, ahead_append, rest', ← List.singleton_append, ← List.append_assoc] at split
  have member : last ∈ ahead n pieces := by
    rw [List.append_cancel_right split]
    exact List.mem_append_right _ List.mem_cons_self
  obtain ⟨first, some, _, inside⟩ := filled.places (List.mem_filter.mp member).1
  rw [stop]
  exact ⟨by omega, inside⟩

theorem exists_imported (some : others ≠ []) (ends : EndsImport d (.gap h :: back))
    (filled : Filled front)
    (filled' : Filled (spacedImport d g h (first :: others) ++ back))
    (rest : e.rest = ahead (byteLength (front.flatMap Piece.text))
      (spacedImport d g h (first :: others) ++ back))
    (steps : Steps unitStep
      (sourceOfPieces d (front ++ (spacedImport d g h (first :: others) ++ back))) e items c') :
    ∃ decl stop behind e', items = .imported decl stop :: behind ∧
      decl.plain = ⟨joinSegments (first :: others), false, false, Span.none⟩ ∧
      Clears (front ++ spacedImport d g h (first :: others)) back e' ∧ e'.classes = e.classes ∧
      Steps unitStep (sourceOfPieces d (front ++ (spacedImport d g h (first :: others) ++ back)))
        e' behind c' := by
  have parts : spacedImport d g h (first :: others) ++ back =
      .gap g :: (importPieces d (first :: others) ++ (.gap h :: back)) := by
    simp [spacedImport]
  have whole : (sourceOfPieces d (front ++ (spacedImport d g h (first :: others) ++ back))).text =
      front.flatMap Piece.text ++ (spacedImport d g h (first :: others) ++ back).flatMap Piece.text :=
    text_sourceOfPieces_append
  have here : At (sourceOfPieces d (front ++ (spacedImport d g h (first :: others) ++ back))) e
      (front.flatMap Piece.text)
      (.gap g :: (importPieces d (first :: others) ++ (.gap h :: back))) := by
    rw [← parts]
    exact ⟨whole, rest⟩
  cases steps with
  | done last =>
    have none := (unitStep_none last).1
    rw [here.gap.rest] at none
    cases none
  | more step _ behind =>
    have run := unitStep_some step
    rcases (decides_item some ends).decide here.gap with ⟨_, failed⟩ | read
    · cases failed.symm.trans run
    obtain ⟨_, e', before, taken, there, known⟩ := read
    cases run.symm.trans taken
    obtain ⟨decl, stop, rfl, path, isStatic, onDemand⟩ := known
    have positive : ∀ t ∈ e.rest, t.start < t.stop := by
      intro t member
      rw [rest] at member
      exact (filled'.places (List.mem_filter.mp member).1).2.1
    obtain ⟨header, classes, _, _⟩ := item_ends run (rest ▸ inOrder_ahead _ _) positive rfl
    have length := there.gap.text
    rw [whole, List.flatMap_append, ← List.append_assoc, ← List.flatMap_append] at length
    have rest' := there.gap.rest
    rw [← List.append_cancel_right length, List.flatMap_append, byteLength_append] at rest'
    obtain ⟨beyond, within⟩ :=
      lastStop_of_lands (filled_append.mp filled').1 header.lands rest rest'
    refine ⟨decl, stop, _, _, rfl, ?_, ⟨?_, ?_, header.docFloor, ?_⟩, classes, behind⟩
    · rw [Import.plain, path, isStatic, onDemand]
    · rw [rest', List.flatMap_append, byteLength_append]
    · rwa [List.flatMap_append, byteLength_append]
    · intro t member
      rw [notes_append, notes_spacedImport, List.append_nil] at member
      obtain ⟨_, some, last⟩ := filled.notes_places member
      omega

theorem plain_with_import {key : String → String} {front front' behind behind' : List Item}
    {classes classes' : List ClassDecl} {decl : Import} {stop : Nat}
    (none : behind.filterMap Item.import? = [])
    (same : front.map (Item.plain id) = front'.map (Item.plain id))
    (same' : behind.map (Item.plain id) = behind'.map (Item.plain id))
    (alike : classes.map (ClassDecl.plain key id) = classes'.map (ClassDecl.plain key id)) :
    CompilationUnit.plain key id
      { (front' ++ .imported decl stop :: behind').foldl Item.addTo .empty with
        classes := classes' } =
      (Item.imported decl.plain 0).addTo (CompilationUnit.plain key id
        { (front ++ behind).foldl Item.addTo .empty with classes := classes }) := by
  have items : ((front' ++ .imported decl stop :: behind').foldl Item.addTo .empty).plain key id =
      (Item.imported decl.plain 0).addTo
        (((front ++ behind).foldl Item.addTo .empty).plain key id) := by
    rw [Item.plain_foldl_addTo, Item.plain_foldl_addTo, List.map_append, List.map_append,
      List.map_cons, ← same, ← same', List.foldl_append, List.foldl_append, List.foldl_cons]
    exact foldl_imported none
  simp only [CompilationUnit.plain, Item.addTo, CompilationUnit.mk.injEq] at items ⊢
  exact ⟨items.1, items.2.1, trivial, alike.symm, items.2.2.2.2⟩

/-- A source that is read with an import written into it has that import, and is else as it was. -/
theorem unit_with_import {behind : List Item} {c : Cursor} {u' : CompilationUnit}
    (some : others ≠ []) (ends : EndsImport d (.gap h :: back)) (fit : Fit (front ++ back) [])
    (fit' : Fit (front ++ (spacedImport d g h (first :: others) ++ back)) [])
    (between : Between front back mid)
    (chain : Chain unitStep (sourceOfPieces d (front ++ back)) (start (locate 0 (front ++ back)))
      items mid)
    (steps : Steps unitStep (sourceOfPieces d (front ++ back)) mid behind c)
    (none : behind.filterMap Item.import? = [])
    (run : unit.on (sourceOfPieces d (front ++ (spacedImport d g h (first :: others) ++ back)))
      (start (locate 0 (front ++ (spacedImport d g h (first :: others) ++ back)))) = .ok (u', c')) :
    u'.plain id id =
      (Item.imported ⟨joinSegments (first :: others), false, false, Span.none⟩ 0).addTo
        (CompilationUnit.plain id id
          { (items ++ behind).foldl Item.addTo .empty with classes := c.classes }) := by
  obtain ⟨filled, filled''⟩ := filled_append.mp fit.filled
  obtain ⟨filled', _⟩ := filled_append.mp (filled_append.mp fit'.filled).2
  obtain ⟨all, last, read, ended⟩ := on_bind_eq_ok.mp run
  cases ended
  have longer : (tokens back).length ≤
      (tokens (spacedImport d g h (first :: others) ++ back)).length := by
    rw [tokens_append, List.length_append]
    exact Nat.le_add_left _ _
  obtain ⟨items', e, chain', same, rest, alike⟩ := follow_front between chain filled filled''
    (filled_append.mpr ⟨filled', filled''⟩) longer rfl
  obtain ⟨_, rfl, later⟩ := chain'.exists_steps (steps_of_many_unitStep read)
  obtain ⟨decl, stop, behind', e', rfl, plain, right, classes, steps'⟩ :=
    exists_imported some ends filled (filled_append.mpr ⟨filled', filled''⟩) rest later
  rw [← List.append_assoc] at steps'
  obtain ⟨same', alike'⟩ := follow_behind (between.clears filled) right filled
    (filled_append.mpr ⟨filled, filled'⟩) filled'' steps steps' (alike.trans (by rw [classes]))
  rw [← plain]
  exact plain_with_import none same same' alike'

end Import

end Parser

end CreatorSynth
