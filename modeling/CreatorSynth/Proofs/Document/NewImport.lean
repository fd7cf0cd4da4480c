import CreatorSynth.Proofs.Document.Edits
import CreatorSynth.Proofs.Document.Imports
import CreatorSynth.Proofs.Parser.NewImport

/-! An import that is added to a source. The source is read as it was, with the import behind the
others. In Java that holds of every source; in Groovy nothing ends an import, so what follows has to
keep apart from it. -/
namespace CreatorSynth
open Text Piece CreatorSynth.Parser

namespace CompilationUnit

variable {u : CompilationUnit} {path : String} {dialect : Dialect} {e : TextEdit}

/-- Where an import is written: behind the last one, else behind the package, else in front. -/
def importOffset (u : CompilationUnit) : Nat :=
  match u.imports.getLast? with
  | some last => last.span.stop
  | none => if u.package.isSome then u.headerEnd else 0

/-- The line breaks in front of it and behind it. -/
def importFeeds (u : CompilationUnit) : List Char × List Char :=
  match u.imports.getLast? with
  | some _ => (['\n'], [])
  | none => if u.package.isSome then (['\n', '\n'], []) else ([], ['\n', '\n'])

theorem importFeeds_blank (u : CompilationUnit) :
    u.importFeeds.1.all isGapChar = true ∧ u.importFeeds.2.all isGapChar = true := by
  unfold importFeeds
  split
  · decide
  · split <;> decide

/-- In Groovy no word runs on behind the import, and no semicolon is taken for its end. -/
structure KeepsApart (u : CompilationUnit) (source : String) : Prop where
  breaks : ∀ after, dropBytes? u.importOffset source.toList = some after →
    Breaks (u.importFeeds.2 ++ after)
  ends : ∀ located, tokenize source = .ok located →
    ∀ t ∈ (codeTokens located).find? fun t => decide (u.importOffset ≤ t.start),
      t.token ≠ .symbol .semicolon

theorem importEdit_eq_some (computed : u.importEdit path dialect = .ok (some e)) :
    u.sees path = false ∧ u.boundTo? (simpleName path) = none ∧
      e = .insertion u.importOffset (String.ofList (u.importFeeds.1 ++
        (("import " ++ path ++ dialect.terminator).toList ++ u.importFeeds.2))) := by
  unfold importEdit at computed
  split at computed
  · cases computed
  rename_i unseen
  split at computed
  · cases computed
  rename_i unbound
  refine ⟨eq_false_of_ne_true unseen, unbound, ?_⟩
  have made := Option.some.inj (Except.ok.inj computed)
  rw [← made]
  unfold importOffset importFeeds
  cases u.imports.getLast? with
  | some last => simp [TextEdit.insertion, String.ext_iff]
  | none =>
    cases u.package.isSome <;> simp [TextEdit.insertion, String.ext_iff]

theorem importOffset_of_parts {items : List Item} {classes : List ClassDecl} {c mid : Cursor}
    (parts : Parts c items mid) (begins : c.lastStop = 0)
    (whole : u = { items.foldl Item.addTo empty with classes := classes }) :
    u.importOffset = mid.lastStop ∧ (u.importFeeds.1 = [] → mid.lastStop = 0) := by
  have made : u.MadeOf items := whole ▸ madeOf_foldl items classes
  unfold importOffset importFeeds
  cases parts with
  | behindImport ends last stop =>
    rw [made.imports, last]
    exact ⟨stop, nofun⟩
  | behindPackage ends none last =>
    have declared : u.package.isSome = true := by
      obtain ⟨front, found, back, split, header, _⟩ := exists_last_of_filterMap last
      have member : found ∈ items := split ▸ List.mem_append_right _ List.mem_cons_self
      have other := List.filterMap_eq_nil_iff.mp none found member
      cases found with
      | package name stop =>
        have named : name ∈ items.filterMap Item.package? :=
          List.mem_filterMap.mpr ⟨_, member, rfl⟩
        rw [made.package, List.getLast?_isSome]
        exact List.ne_nil_of_mem named
      | imported decl stop => cases other
      | _ => cases header
    rw [made.imports, none, List.getLast?_nil, if_pos declared, if_pos declared, made.headerEnd,
      last]
    exact ⟨rfl, nofun⟩
  | inFront same none =>
    have bare : items.filterMap Item.import? = [] ∧ items.filterMap Item.package? = [] := by
      have each := List.filterMap_eq_nil_iff.mp none
      refine ⟨List.filterMap_eq_nil_iff.mpr fun item member => ?_,
        List.filterMap_eq_nil_iff.mpr fun item member => ?_⟩ <;>
        · have other := each item member
          cases item <;> first | rfl | cases other
    rw [made.imports, bare.1, made.package, bare.2, same, begins]
    exact ⟨rfl, fun _ => rfl⟩

/-- The unit without its places, with an import behind the others. -/
def withImport (u : CompilationUnit) (path : String) : CompilationUnit :=
  { u.plain id id with
    imports := (u.plain id id).imports ++ [⟨path, false, false, Span.none⟩] }

end CompilationUnit

section Reading

variable {source source' path : String} {dialect : Dialect} {u u' : CompilationUnit} {e : TextEdit}

theorem eq_nil_of_length {front : List Piece} {rest : List Char} (stand : AllStand front rest)
    (none : byteLength (front.flatMap Piece.text) = 0) : front = [] := by
  cases front with
  | nil => rfl
  | cons piece front =>
    rw [List.flatMap_cons, byteLength_append] at none
    have positive := byteLength_pos stand.1.text_ne_nil
    omega

theorem head_ne_dot {src : Source} {c c' : Cursor} {items : List Item}
    (steps : Steps unitStep src c items c') :
    c.rest.head?.map (·.token) ≠ some (.symbol .dot) := by
  intro head
  rcases c with ⟨_ | ⟨⟨t, i, j⟩, rest⟩, last, floor, classes⟩
  · cases head
  cases Option.some.inj head
  cases steps with
  | done last => cases (unitStep_none last).1
  | more first _ _ =>
    have refused : ∃ e,
        item.on src ⟨⟨.symbol .dot, i, j⟩ :: rest, last, floor, classes⟩ = .error e := ⟨_, rfl⟩
    obtain ⟨_, failed⟩ := refused
    cases failed.symm.trans (unitStep_some first)

theorem exists_segments (valid : isImportPath path = true) : ∃ first others, others ≠ [] ∧
    path = joinSegments (first :: others) ∧ ∀ s ∈ first :: others, hasIdentifierShape s = true := by
  rw [isImportPath, Bool.and_eq_true, decide_eq_true_eq, List.all_eq_true] at valid
  obtain ⟨long, shape⟩ := valid
  have whole := joinSegments_segments path
  generalize segments path = parts at long shape whole
  match parts, long with
  | first :: second :: others, _ =>
    exact ⟨first, second :: others, List.cons_ne_nil _ _, whole.symm, shape⟩

theorem find?_behind {front back : List Piece} (filled : Filled front) (filled' : Filled back) :
    (codeTokens (locate 0 (front ++ back))).find?
      (fun t => decide (byteLength (front.flatMap Piece.text) ≤ t.start)) =
      (ahead (byteLength (front.flatMap Piece.text)) back).head? := by
  have before : ∀ t ∈ ahead 0 front, t.start < byteLength (front.flatMap Piece.text) := by
    intro t member
    obtain ⟨_, some, _, last⟩ := filled.places (List.mem_filter.mp member).1
    omega
  have none : (ahead 0 front).find?
      (fun t => decide (byteLength (front.flatMap Piece.text) ≤ t.start)) = Option.none := by
    refine List.find?_eq_none.mpr fun t member => ?_
    simpa using before t member
  change (ahead 0 (front ++ back)).find? _ = _
  rw [ahead_append, Nat.zero_add, List.find?_append, none, Option.none_or]
  cases behind : ahead (byteLength (front.flatMap Piece.text)) back with
  | nil => rfl
  | cons t ts =>
    have member : t ∈ ahead (byteLength (front.flatMap Piece.text)) back := by
      rw [behind]
      exact List.mem_cons_self
    have inside := (filled'.places (List.mem_filter.mp member).1).1
    exact List.find?_cons_of_pos (decide_eq_true inside)

/-- A source that parts where an import is written into it. -/
structure ImportPlace (source : String) (dialect : Dialect) (u : CompilationUnit)
    (front back : List Piece) (items behind : List Item) (mid last : Cursor) : Prop where
  whole : (front ++ back).flatMap Piece.text = source.toList
  stand : AllStand (front ++ back) []
  offset : u.importOffset = byteLength (front.flatMap Piece.text)
  bare : u.importFeeds.1 = [] → front = []
  between : Between front back mid
  chain : Chain unitStep (sourceOfPieces dialect (front ++ back)) (start (locate 0 (front ++ back)))
    items mid
  steps : Steps unitStep (sourceOfPieces dialect (front ++ back)) mid behind last
  none : behind.filterMap Item.import? = []
  unit : u = { (items ++ behind).foldl Item.addTo .empty with classes := last.classes }

theorem exists_importPlace (reads : parseUnit source dialect = .ok u) :
    ∃ front back items behind mid last,
      ImportPlace source dialect u front back items behind mid last := by
  obtain ⟨_, _, cuts, run⟩ := parseUnit_eq_ok.mp reads
  obtain ⟨pieces, whole, stand, rfl⟩ := exists_pieces_of_tokenize cuts
  have same : sourceOf source dialect (locate 0 pieces) = sourceOfPieces dialect pieces := by
    rw [sourceOfPieces, whole, String.ofList_toList]
  rw [same] at run
  obtain ⟨items, last, read, ended⟩ := on_bind_eq_ok.mp run
  have unit : u = { items.foldl Item.addTo .empty with classes := last.classes } := by
    cases ended
    rfl
  have positive : ∀ t ∈ (start (locate 0 pieces)).rest, t.start < t.stop := fun t member =>
    (stand.filled.places (List.mem_filter.mp member).1).2.1
  obtain ⟨items, behind, mid, rfl, chain, steps, none, parts⟩ :=
    exists_parts (steps_of_many_unitStep read) (inOrder_ahead 0 pieces) positive
  obtain ⟨front, back, rfl, between⟩ := exists_between parts
  obtain ⟨offset, bare⟩ := u.importOffset_of_parts parts rfl unit
  rw [between.lastStop] at offset bare
  exact ⟨front, back, items, behind, mid, last, whole, stand, offset,
    fun empty => eq_nil_of_length (allStand_append.mp stand).1 (bare empty), between, chain, steps,
    none, unit⟩

namespace ImportPlace

variable {front back : List Piece} {items behind : List Item} {mid last : Cursor}
  {first : String} {others : List String}

theorem edited (place : ImportPlace source dialect u front back items behind mid last)
    (named : path = joinSegments (first :: others))
    (made : (TextEdit.insertion u.importOffset (String.ofList (u.importFeeds.1 ++
      (("import " ++ path ++ dialect.terminator).toList ++ u.importFeeds.2)))).applyTo? source =
        some source') :
    source' = String.ofList ((front ++ (spacedImport dialect u.importFeeds.1 u.importFeeds.2
      (first :: others) ++ back)).flatMap Piece.text) := by
  refine Option.some.inj (made.symm.trans (TextEdit.applyTo?_eq_some_iff.mpr
    ⟨front.flatMap Piece.text, [], back.flatMap Piece.text, ?_, place.offset.symm, ?_, ?_⟩))
  · rw [← place.whole, List.flatMap_append, List.append_nil]
  · rw [List.append_nil]
    exact place.offset.symm
  · rw [List.flatMap_append, List.flatMap_append, flatMap_text_spacedImport, named]
    simp only [TextEdit.insertion, String.toList_ofList, List.append_assoc]

theorem endsImport (place : ImportPlace source dialect u front back items behind mid last)
    (apart : dialect = .groovy → u.KeepsApart source) :
    EndsImport dialect (.gap u.importFeeds.2 :: back) := by
  cases dialect with
  | java => exact ⟨nofun, nofun⟩
  | groovy =>
    have head : (tokens back).head? = mid.rest.head?.map (·.token) := by
      rw [place.between.rest, ← List.head?_map, map_token_ahead]
    have cuts : tokenize source = .ok (locate 0 (front ++ back)) := by
      rw [← String.ofList_toList (s := source), ← place.whole]
      exact tokenize_of_fit place.stand.fit
    obtain ⟨filled, filled'⟩ := filled_append.mp place.stand.filled
    refine ⟨fun dot => head_ne_dot place.steps (head.symm.trans dot), fun _ semicolon => ?_⟩
    obtain ⟨t, first, same⟩ := Option.map_eq_some_iff.mp (head.symm.trans semicolon)
    refine (apart rfl).ends _ cuts t ?_ same
    rw [place.offset, find?_behind filled filled', ← place.between.rest]
    exact first

theorem breaks (place : ImportPlace source dialect u front back items behind mid last)
    (apart : dialect = .groovy → u.KeepsApart source) :
    Breaks ((dialect.terminatorPieces ++ .gap u.importFeeds.2 :: back).flatMap Piece.text) := by
  cases dialect with
  | java => exact breaks_cons (by decide) _
  | groovy =>
    refine (apart rfl).breaks _ ?_
    rw [place.offset, ← place.whole, List.flatMap_append]
    exact dropBytes?_append _ _

end ImportPlace

/-- A source that is read with the import behind the others is else read as it was. -/
theorem plain_of_importEdit (reads : parseUnit source dialect = .ok u)
    (valid : isImportPath path = true) (computed : u.importEdit path dialect = .ok (some e))
    (made : e.applyTo? source = some source') (reads' : parseUnit source' dialect = .ok u')
    (apart : dialect = .groovy → u.KeepsApart source) : u'.plain id id = u.withImport path := by
  obtain ⟨front, back, items, behind, mid, last, place⟩ := exists_importPlace reads
  obtain ⟨_, _, rfl⟩ := CompilationUnit.importEdit_eq_some computed
  obtain ⟨first, others, some, named, shape⟩ := exists_segments valid
  have edited := place.edited named made
  obtain ⟨_, c', cuts, run⟩ := parseUnit_eq_ok.mp reads'
  rw [edited] at cuts run
  have fit := fit_spacedImport shape place.stand place.between.ends place.bare u.importFeeds_blank.1
    u.importFeeds_blank.2 (place.breaks apart) cuts
  cases cuts.symm.trans (tokenize_of_fit fit)
  rw [unit_with_import some (place.endsImport apart) place.stand.fit fit place.between place.chain
    place.steps place.none run, ← place.unit, named]
  rfl

end Reading

namespace CompilationUnit

variable {u u' : CompilationUnit} {path : String}

theorem filterMap_bound?_plain (u : CompilationUnit) :
    (u.plain id id).imports.filterMap Import.bound? = u.imports.filterMap Import.bound? :=
  List.filterMap_map ..

theorem nameOf?_plain (u : CompilationUnit) (id' : ClassId) :
    (u.plain id id).nameOf? id' = u.nameOf? id' := by
  rw [nameOf?, class?, CompilationUnit.plain, List.getElem?_map, Option.map_map]
  rfl

theorem sees_of_withImport (same : u'.plain id id = u.withImport path) :
    u'.sees path = true ∧ u'.imports.filterMap Import.bound? =
      u.imports.filterMap Import.bound? ++ [simpleName path] := by
  have imports : (u'.plain id id).imports =
      (u.plain id id).imports ++ [⟨path, false, false, Span.none⟩] := by rw [same, withImport]
  constructor
  · have member : (⟨path, false, false, Span.none⟩ : Import) ∈ u'.imports.map Import.plain := by
      have inside : (⟨path, false, false, Span.none⟩ : Import) ∈ (u'.plain id id).imports := by
        rw [imports]
        exact List.mem_append_right _ List.mem_cons_self
      exact inside
    obtain ⟨i, listed, plain⟩ := List.mem_map.mp member
    have covers : i.covers path = i.plain.covers path := rfl
    have known : u'.hasImport path = true := by
      refine List.any_eq_true.mpr ⟨i, listed, ?_⟩
      rw [covers, plain]
      simp [Import.covers]
    simp [sees, known]
  · rw [← filterMap_bound?_plain, imports, List.filterMap_append, filterMap_bound?_plain]
    rfl

theorem named_of_withImport (same : u'.plain id id = u.withImport path)
    (unbound : u.boundTo? (simpleName path) = none) :
    ∀ id ∈ u'.topLevel, u'.nameOf? id ≠ some (simpleName path) := by
  intro id' listed named
  refine (boundTo?_eq_none_iff.mp unbound).2 ⟨id', ?_, ?_⟩
  · have topLevel : u'.topLevel.map id = u.topLevel.map id :=
      congrArg CompilationUnit.topLevel same
    rw [List.map_id, List.map_id] at topLevel
    rwa [← topLevel]
  · rw [← nameOf?_plain, same] at named
    rw [← nameOf?_plain]
    exact named

end CompilationUnit

namespace Document

variable {d d' : Document} {path : String}

/-- What a document gains by an import: it is behind the others, and else all is as it was. -/
structure GainsImport (path : String) (d d' : Document) : Prop where
  unit : d'.unit.plain id id = d.unit.withImport path
  /-- Added again it changes nothing. -/
  again : (apply (.addImport path)).on d' = (.ok ⟨d'.version, false⟩, d')
  /-- Imports that bind distinct names still do. -/
  distinct : (d.unit.imports.filterMap Import.bound?).Nodup →
    (d'.unit.imports.filterMap Import.bound?).Nodup
  /-- It binds the name of no class at the top of the file. -/
  free : ∀ id ∈ d'.unit.topLevel, d'.unit.nameOf? id ≠ some (simpleName path)

theorem edit_addImport {found : Option TextEdit}
    (computed : (Mutation.addImport path).edit d.source d.unit d.dialect = .ok found) :
    isImportPath path = true ∧ d.unit.importEdit path d.dialect = .ok found := by
  simp only [Mutation.edit, Mutation.validate, bind, Except.bind] at computed
  split at computed
  · cases computed
  · rename_i checked
    split at checked
    · exact ⟨‹_›, computed⟩
    · cases checked

theorem apply_addImport_of_sees (valid : isImportPath path = true)
    (seen : d.unit.sees path = true) :
    (apply (.addImport path)).on d = (.ok ⟨d.version, false⟩, d) := by
  have computed : (Mutation.addImport path).edit d.source d.unit d.dialect = .ok none := by
    simp [Mutation.edit, Mutation.validate, valid, CompilationUnit.importEdit, seen, bind,
      Except.bind]
  simp only [apply, Editing.on_bind, Editing.on_get, computed, Editing.on_pure]

/-- An import is refused, or nothing is to be changed, or the document gains just that import. -/
theorem apply_addImport (reads : parseUnit d.source d.dialect = .ok d.unit)
    (apart : d.dialect = .groovy → d.unit.KeepsApart d.source) :
    (∃ e, (apply (.addImport path)).on d = (.error e, d)) ∨
    (d.unit.sees path = true ∧ (apply (.addImport path)).on d = (.ok ⟨d.version, false⟩, d)) ∨
    ∃ made d', (apply (.addImport path)).on d = (.ok made, d') ∧ made.changed = true ∧
      d.GainsImport path d' := by
  rcases run : (apply (.addImport path)).on d with ⟨e | made, d'⟩
  · rw [apply_on_error run]
    exact .inl ⟨e, rfl⟩
  rcases apply_on_ok_cases run with ⟨computed, _, rfl⟩ | ⟨e, computed, changed, spliced⟩
  · obtain ⟨valid, none⟩ := edit_addImport computed
    have seen : d'.unit.sees path = true := by
      by_contra unseen
      rw [CompilationUnit.importEdit, if_neg unseen] at none
      split at none <;> cases none
    exact .inr (.inl ⟨seen, run.symm.trans (apply_addImport_of_sees valid seen)⟩)
  · obtain ⟨valid, computed⟩ := edit_addImport computed
    obtain ⟨_, unbound, _⟩ := CompilationUnit.importEdit_eq_some computed
    have edited := splice_on_ok spliced
    have reads' := edited.reads
    rw [edited.dialect] at reads'
    have same := plain_of_importEdit reads valid computed (splice_on_ok_source spliced) reads' apart
    obtain ⟨seen, bound⟩ := CompilationUnit.sees_of_withImport same
    refine .inr (.inr ⟨made, d', rfl, changed, same, apply_addImport_of_sees valid seen, ?_,
      CompilationUnit.named_of_withImport same unbound⟩)
    intro distinct
    rw [bound]
    refine List.nodup_append.mpr ⟨distinct, List.nodup_singleton _, ?_⟩
    rintro simple listed _ inside rfl
    rw [List.mem_singleton.mp inside] at listed
    obtain ⟨i, member, binds⟩ := List.mem_filterMap.mp listed
    exact (CompilationUnit.boundTo?_eq_none_iff.mp unbound).1 ⟨i, member, binds⟩

/-- In Groovy a word behind the place of the import runs on. -/
example : (ofSource "A.groovy" "import a.A;public class X \x7b\x7d").toOption.map (fun d =>
    ((apply (.addImport "b.B")).on d).2.unit.imports.map (·.path)) =
      some ["a.A", "b.Bpublic"] := by
  decide +kernel

/-- A semicolon there is taken for the end of the import, and a comment in front of it documents
nothing any more. -/
example : (ofSource "A.groovy" "import a.A;/** d */;\nclass X \x7b\x7d").toOption.map (fun d =>
    (d.unit.classes.map (·.doc),
      ((apply (.addImport "b.B")).on d).2.unit.classes.map (·.doc))) =
        some ([some "/** d */"], [none]) := by
  decide +kernel

end Document

end CreatorSynth
