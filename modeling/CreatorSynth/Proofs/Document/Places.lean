import CreatorSynth.Proofs.Document.Edits
import CreatorSynth.Proofs.Parser.Errors

/-! Where edits cut a source. The spans of a unit lie between characters, and so does every offset
that an edit is computed from, so no cut on the way fails and an edit takes out blanks alone. -/
namespace CreatorSynth
open Text Located CreatorSynth.Parser

namespace Text

variable {cs mid front : List Char} {start stop n : Nat}

theorem Boundary.of_slice?_prefix (cut : slice? cs start stop = some mid) (begins : front <+: mid) :
    Boundary cs (start + byteLength front) ∧ start + byteLength front ≤ stop := by
  obtain ⟨before, after, rfl, rfl, rfl⟩ := slice?_eq_some_iff.mp cut
  obtain ⟨rest, rfl⟩ := begins
  refine ⟨⟨before ++ front, rest ++ after, ?_, byteLength_append before front⟩, ?_⟩
  · simp only [List.append_assoc]
  · simp only [byteLength_append]
    omega

theorem exists_dropBytes? (between : Boundary cs n) : ∃ after, dropBytes? n cs = some after := by
  obtain ⟨front, after, rfl, rfl⟩ := between
  exact ⟨after, dropBytes?_append front after⟩

theorem prefix_trimEnd (cs : List Char) : trimEnd cs <+: cs := by
  rw [trimEnd, ← List.reverse_suffix, List.reverse_reverse]
  exact List.dropWhile_suffix _

theorem head?_of_slice?_one {c : Char} {after : List Char}
    (cut : slice? cs n (n + 1) = some [c]) (dropped : dropBytes? n cs = some after) :
    after.head? = some c := by
  obtain ⟨front, back, rfl, rfl, _⟩ := slice?_eq_some_iff.mp cut
  rw [List.append_assoc, dropBytes?_append] at dropped
  cases dropped
  rfl

theorem Boundary.succ {c : Char} {after : List Char} (dropped : dropBytes? n cs = some after)
    (head : after.head? = some c) (short : c.utf8Size = 1) : Boundary cs (n + 1) := by
  obtain ⟨front, rfl, rfl⟩ := dropBytes?_eq_some_iff.mp dropped
  obtain ⟨back, rfl⟩ := List.head?_eq_some_iff.mp head
  refine ⟨front ++ [c], back, by simp, ?_⟩
  rw [byteLength_append, byteLength, byteLength, short]

end Text

/-- The offsets of a class that edits go by. -/
structure ClassDecl.Bounded (text : List Char) (c : ClassDecl) : Prop where
  start : Boundary text c.span.start
  opening : slice? text c.bodySpan.start (c.bodySpan.start + 1) = some ['{']
  closing : slice? text (c.bodySpan.stop - 1) c.bodySpan.stop = some ['}']
  ordered : c.bodySpan.start < c.bodySpan.stop
  members : ∀ m ∈ c.members, Boundary text m.span.start ∧ Boundary text m.span.stop ∧
    m.span.stop ≤ c.bodySpan.stop - 1

/-- The offsets of a unit that edits go by. -/
structure CompilationUnit.Bounded (text : List Char) (u : CompilationUnit) : Prop where
  classes : ∀ c ∈ u.classes, c.Bounded text
  imports : ∀ i ∈ u.imports, Boundary text i.span.stop
  headerEnd : Boundary text u.headerEnd

section Units

variable {text : List Char} {tokens ts : List Located}

theorem ClassDecl.Stands.boundaries {classes : List ClassDecl} {c : ClassDecl}
    (stands : c.Stands classes tokens) (order : InOrder tokens)
    (each : ∀ t ∈ tokens, t.StandsIn text) :
    Boundary text c.span.start ∧
      ∀ m ∈ c.members, Boundary text m.span.start ∧ Boundary text m.span.stop := by
  obtain ⟨before, head, opening, inner, closing, after, rfl, _, _, span, _, laid, _⟩ :=
    stands.placed
  have parts := (List.pairwise_append.mp (List.pairwise_append.mp order).1).2.1
  have inside : ∀ t ∈ head ++ (opening :: inner ++ [closing]), t.StandsIn text := fun t member =>
    each t (List.mem_append_left _ (List.mem_append_right _ member))
  have within : ∀ t ∈ inner, t.StandsIn text := fun t member => inside t (by simp [member])
  have inner_order : InOrder inner :=
    (List.pairwise_append.mp (List.pairwise_cons.mp (List.pairwise_append.mp parts).2.1).2).1
  constructor
  · obtain ⟨t, member, _, _, whole, _⟩ := Span.exists_over (by simp) parts
      fun t member => (inside t member).some
    rw [span, whole]
    exact (inside t member).boundary_start
  · intro m member
    obtain ⟨t, t_inside, v, v_inside, same, _⟩ := laid.covers inner_order
      (fun t member => (within t member).some) m member
    rw [same]
    exact ⟨(within t t_inside).boundary_start, (within v v_inside).boundary_stop⟩

theorem Sections.headerStop {src : Source} {classes : List ClassDecl} {items : List Item}
    (sections : Sections src classes ts items) :
    ∀ item ∈ items, ∀ stop ∈ item.headerStop?, ∃ t ∈ ts, t.stop = stop := by
  induction sections with
  | nil => nofun
  | @cons taken ts item items first _ ih =>
    intro item' member stop ends
    cases member with
    | head =>
      obtain ⟨t, behind, same⟩ := Option.map_eq_some_iff.mp (first.last_stop ends)
      exact ⟨t, List.mem_append_left _ (List.mem_of_getLast? behind), same⟩
    | tail _ member =>
      obtain ⟨t, inside, same⟩ := ih item' member stop ends
      exact ⟨t, List.mem_append_right _ inside, same⟩

theorem CompilationUnit.bounded_of_parseUnit {source : String} {dialect : Dialect}
    {u : CompilationUnit} (read : parseUnit source dialect = .ok u) :
    u.Bounded source.toList := by
  obtain ⟨located, c', tokens, run⟩ := parseUnit_eq_ok.mp read
  have placed := CompilationUnit.placed_of_unit tokens run
  obtain ⟨all_order, all_stand⟩ := tokenize_places tokens
  have order : InOrder (codeTokens located) := all_order.filter _
  have each : ∀ t ∈ codeTokens located, t.StandsIn source.toList := fun t member =>
    all_stand t (List.mem_filter.mp member).1
  obtain ⟨items, sections, made⟩ := placed.header
  refine ⟨fun c member => ?_, fun i member => ?_, ?_⟩
  · obtain ⟨_, reads, _, whole⟩ := unit_reads (c := Parser.start located) run
    have classes : u.classes = c'.classes := by rw [whole]
    have stands := (reads.classes c (classes ▸ member)).resolve_left List.not_mem_nil
    obtain ⟨start, members⟩ := stands.boundaries order each
    have here := placed.classes c member
    refine ⟨start, here.opening, here.closing, here.inside.2.1, fun m inside => ?_⟩
    have within := Nat.le_sub_one_of_lt (here.members m inside).2.2
    exact ⟨(members m inside).1, (members m inside).2, within⟩
  · rw [made.imports] at member
    obtain ⟨item, inside, same⟩ := List.mem_filterMap.mp member
    obtain ⟨_, _, t, here, span⟩ := sections.covers order (fun t member => (each t member).some)
      item inside i.span (Item.covers_of_import same)
    rw [span]
    exact (each t here).boundary_stop
  · rw [made.headerEnd]
    cases last : (items.filterMap Item.headerStop?).getLast? with
    | none => exact boundary_zero _
    | some stop =>
      obtain ⟨item, inside, same⟩ := List.mem_filterMap.mp (List.mem_of_getLast? last)
      obtain ⟨t, here, rfl⟩ := sections.headerStop item inside stop same
      exact (each t here).boundary_stop

end Units

namespace ClassDecl.Bounded

variable {source : List Char} {c : ClassDecl}

theorem open_before_close (bounded : c.Bounded source) :
    c.bodySpan.start + 1 ≤ c.bodySpan.stop - 1 := by
  have ordered := bounded.ordered
  by_contra inside
  have same : c.bodySpan.stop - 1 = c.bodySpan.start := by omega
  have closing := bounded.closing
  rw [same, show c.bodySpan.stop = c.bodySpan.start + 1 by omega, bounded.opening] at closing
  cases closing

theorem boundary_open (bounded : c.Bounded source) : Boundary source (c.bodySpan.start + 1) :=
  (boundaries_of_slice? bounded.opening).2

theorem boundary_close (bounded : c.Bounded source) : Boundary source (c.bodySpan.stop - 1) :=
  (boundaries_of_slice? bounded.closing).1

end ClassDecl.Bounded

section Insertion

variable {source : List Char} {c : ClassDecl} {stop limit : Nat}

theorem exists_lineBefore? (between : Boundary source stop) :
    ∃ line, lineBefore? source stop = some line := by
  obtain ⟨before, cut⟩ := exists_slice? (Nat.zero_le _) (boundary_zero source) between
  exact ⟨_, by rw [lineBefore?, cut]; rfl⟩

theorem exists_lineIndent? (between : Boundary source stop) :
    ∃ indent, lineIndent? source stop = some indent := by
  obtain ⟨line, before⟩ := exists_lineBefore? between
  exact ⟨_, by rw [lineIndent?, before]; rfl⟩

theorem ClassDecl.exists_memberIndent? (bounded : c.Bounded source) (classIndent : String) :
    ∃ indent, c.memberIndent? source classIndent = some indent := by
  unfold memberIndent?
  cases first : c.members.head? with
  | none => exact ⟨_, rfl⟩
  | some m =>
    obtain ⟨line, before⟩ := exists_lineBefore? (bounded.members m (List.mem_of_head? first)).1
    simp only [before, bind, Option.bind_some]
    split <;> exact ⟨_, rfl⟩

/-- The end of the constants of an enum is found, and no further than to look for it is allowed. -/
theorem exists_constantTail? (forward : stop ≤ limit) (first : Boundary source stop)
    (last : Boundary source limit) :
    ∃ tail, constantTail? source stop limit = some tail ∧ Boundary source tail ∧ tail ≤ limit := by
  obtain ⟨mid, cut⟩ := exists_slice? forward first last
  have taken := Boundary.of_slice?_prefix cut (List.takeWhile_prefix fun c => isBlank c || c == ',')
  have kept := Boundary.of_slice?_prefix cut ((prefix_trimEnd _).trans
    (List.takeWhile_prefix fun c => isBlank c || c == ','))
  obtain ⟨after, dropped⟩ := exists_dropBytes? taken.1
  simp only [constantTail?, cut, dropped, bind, Option.bind_some]
  split
  · exact ⟨_, rfl, taken⟩
  · exact ⟨_, rfl, kept⟩

theorem ClassDecl.Bounded.behind_semicolon {after : List Char} (bounded : c.Bounded source)
    (within : stop ≤ c.bodySpan.stop - 1) (dropped : dropBytes? stop source = some after)
    (semicolon : after.head? = some ';') :
    Boundary source (stop + 1) ∧ stop + 1 ≤ c.bodySpan.stop - 1 := by
  refine ⟨Boundary.succ dropped semicolon rfl, Nat.lt_of_le_of_ne within ?_⟩
  rintro rfl
  have closing := bounded.closing
  rw [show c.bodySpan.stop = c.bodySpan.stop - 1 + 1 by have := bounded.ordered; omega,
    Nat.add_sub_cancel] at closing
  rw [head?_of_slice?_one closing dropped] at semicolon
  cases semicolon

theorem ClassDecl.exists_last_member
    (last : (c.constructors.getLast?.map (·.span.stop)).or
      (c.fields.getLast?.map (·.span.stop)) = some stop) :
    ∃ m ∈ c.members, m.span.stop = stop := by
  rcases Option.or_eq_some_iff.mp last with found | ⟨_, found⟩
  all_goals
    obtain ⟨decl, behind, same⟩ := Option.map_eq_some_iff.mp found
    obtain ⟨m, member, is⟩ := List.mem_filterMap.mp (List.mem_of_getLast? behind)
    cases m <;> cases is
    exact ⟨_, member, same⟩

theorem ClassDecl.exists_constants_end (bounded : c.Bounded source) (first : Boundary source stop)
    (within : stop ≤ c.bodySpan.stop - 1) :
    ∃ tail after, constantTail? source stop (c.bodySpan.stop - 1) = some tail ∧
      dropBytes? tail source = some after ∧ Boundary source tail ∧ tail ≤ c.bodySpan.stop - 1 ∧
      (after.head? = some ';' →
        Boundary source (tail + 1) ∧ tail + 1 ≤ c.bodySpan.stop - 1) := by
  obtain ⟨tail, here, between, inside⟩ := exists_constantTail? within first bounded.boundary_close
  obtain ⟨after, dropped⟩ := exists_dropBytes? between
  exact ⟨tail, after, here, dropped, between, inside, bounded.behind_semicolon inside dropped⟩

/-- A new member has a place, and what it goes behind ends within the braces. -/
theorem ClassDecl.exists_anchor? (bounded : c.Bounded source) :
    ∃ anchor, c.anchor? source (c.bodySpan.stop - 1) = some anchor ∧
      ∀ stop, anchor.stop = some stop → Boundary source stop ∧ stop ≤ c.bodySpan.stop - 1 := by
  have ends : ∀ m ∈ c.members, Boundary source m.span.stop ∧
      m.span.stop ≤ c.bodySpan.stop - 1 := fun m member => (bounded.members m member).2
  unfold anchor?
  cases last : (c.constructors.getLast?.map (·.span.stop)).or
      (c.fields.getLast?.map (·.span.stop)) with
  | some stop =>
    obtain ⟨m, member, same⟩ := ClassDecl.exists_last_member last
    refine ⟨⟨some stop, ""⟩, by simp only [last], fun _ is => ?_⟩
    cases is
    exact same ▸ ends m member
  | none =>
    simp only [last]
    split
    · exact ⟨⟨none, ""⟩, rfl, nofun⟩
    cases found : (c.members.filterMap Member.constant?).getLast? with
    | none => exact ⟨⟨none, ";"⟩, rfl, nofun⟩
    | some constant =>
      obtain ⟨m, member, is⟩ := List.mem_filterMap.mp (List.mem_of_getLast? found)
      cases m <;> cases is
      obtain ⟨first, forward⟩ := ends _ member
      obtain ⟨tail, after, here, dropped, between, within, semicolon⟩ :=
        ClassDecl.exists_constants_end bounded first forward
      simp only [Member.span] at here
      simp only [here, dropped, bind, Option.bind_some, pure]
      refine ⟨_, rfl, fun stop same => ?_⟩
      split at same
      · rename_i ended
        cases same
        exact semicolon ended
      · cases same
        exact ⟨between, within⟩

/-- The edit lies between characters of the source. -/
structure TextEdit.Placed (source : String) (e : TextEdit) : Prop where
  start : Boundary source.toList e.start
  stop : Boundary source.toList e.stop
  forward : e.start ≤ e.stop

theorem TextEdit.Placed.insertion {source : String} {offset : Nat}
    (between : Boundary source.toList offset) (text : String) :
    (TextEdit.insertion offset text).Placed source :=
  ⟨between, between, Nat.le_refl _⟩

theorem ClassDecl.exists_insertion? {source : String} {c : ClassDecl}
    (bounded : c.Bounded source.toList) (text : String) :
    ∃ e, c.insertion? source text = some e ∧ e.Placed source := by
  obtain ⟨classIndent, indented⟩ := exists_lineIndent? bounded.start
  obtain ⟨memberIndent, deeper⟩ := ClassDecl.exists_memberIndent? bounded classIndent
  obtain ⟨anchor, anchored, ends⟩ := ClassDecl.exists_anchor? bounded
  have close := bounded.boundary_close
  simp only [insertion?, indented, deeper, anchored, bind, Option.bind_some]
  cases behind : anchor.stop with
  | some stop =>
    obtain ⟨between, within⟩ := ends stop behind
    obtain ⟨rest, cut⟩ := exists_slice? within between close
    obtain ⟨after, dropped⟩ := exists_dropBytes? between
    simp only [cut, dropped, Option.bind_some]
    split
    · exact ⟨_, rfl, between, close, within⟩
    · exact ⟨_, rfl, .insertion between _⟩
  | none =>
    obtain ⟨inner, cut⟩ := exists_slice? bounded.open_before_close bounded.boundary_open close
    simp only [cut, Option.bind_some]
    split
    · exact ⟨_, rfl, bounded.boundary_open, close, bounded.open_before_close⟩
    · exact ⟨_, rfl, .insertion bounded.boundary_open _⟩

end Insertion

section Edits

variable {source : String} {u : CompilationUnit} {dialect : Dialect} {m : Mutation}

theorem CompilationUnit.placed_importEdit {path : String} {e : TextEdit}
    (bounded : u.Bounded source.toList) (computed : u.importEdit path dialect = .ok (some e)) :
    e.Placed source := by
  unfold importEdit at computed
  split at computed
  · cases computed
  split at computed
  · cases computed
  cases last : u.imports.getLast? with
  | some i =>
    simp only [last] at computed
    cases computed
    exact .insertion (bounded.imports i (List.mem_of_getLast? last)) _
  | none =>
    simp only [last] at computed
    split at computed
    · cases computed
      exact .insertion bounded.headerEnd _
    · cases computed
      exact .insertion (boundary_zero _) _

theorem CompilationUnit.Bounded.of_found {className : String} {c : ClassDecl}
    (bounded : u.Bounded source.toList)
    (found : (u.findClass? className).bind u.class? = some c) : c.Bounded source.toList := by
  obtain ⟨id, _, known⟩ := Option.bind_eq_some_iff.mp found
  exact bounded.classes c (List.mem_of_getElem? known)

theorem CompilationUnit.importEdit_error {path : String} {error : MutationError}
    (failed : u.importEdit path dialect = .error error) :
    ∃ existing, error = .importConflict path existing := by
  unfold importEdit at failed
  split at failed
  · cases failed
  split at failed <;> cases failed
  exact ⟨_, rfl⟩

theorem Mutation.validate_error {error : MutationError}
    (failed : m.validate u dialect = .error error) :
    error ≠ .fault ∧ error ≠ .invalidMember .fault := by
  unfold validate at failed
  split at failed
  · split at failed
    · cases failed
      exact ⟨nofun, nofun⟩
    split at failed
    · cases failed
    · rename_i invalid
      cases failed
      exact ⟨nofun, fun fault =>
        (parseMember_error invalid).sound (MutationError.invalidMember.inj fault)⟩
  · split at failed
    · cases failed
    · cases failed
      exact ⟨nofun, nofun⟩

/-- No mutation fails for a cut that misses the characters, be it of the source or of the text of a
new member. -/
theorem Mutation.edit_error {error : MutationError} (bounded : u.Bounded source.toList)
    (failed : m.edit source u dialect = .error error) :
    error ≠ .fault ∧ error ≠ .invalidMember .fault := by
  unfold edit at failed
  simp only [bind, Except.bind] at failed
  split at failed
  · rename_i invalid
    cases failed
    exact Mutation.validate_error invalid
  cases m with
  | addImport path =>
    obtain ⟨existing, rfl⟩ := CompilationUnit.importEdit_error failed
    exact ⟨nofun, nofun⟩
  | insertMember className text =>
    simp only at failed
    split at failed
    · cases failed
      exact ⟨nofun, nofun⟩
    · rename_i c found
      obtain ⟨e, inserted, _⟩ := ClassDecl.exists_insertion? (bounded.of_found found) text
      rw [inserted] at failed
      cases failed

theorem Mutation.placed_edit {e : TextEdit} (bounded : u.Bounded source.toList)
    (computed : m.edit source u dialect = .ok (some e)) : e.Placed source := by
  unfold edit at computed
  simp only [bind, Except.bind] at computed
  split at computed
  · cases computed
  cases m with
  | addImport path => exact CompilationUnit.placed_importEdit bounded computed
  | insertMember className text =>
    simp only at computed
    split at computed
    · cases computed
    · rename_i c found
      obtain ⟨e', inserted, placed⟩ := ClassDecl.exists_insertion? (bounded.of_found found) text
      rw [inserted] at computed
      cases computed
      exact placed

theorem TextEdit.Placed.only_adds {e : TextEdit} (placed : e.Placed source)
    (blanks : e.CutsBlanks source) : ∃ before cut after,
      source.toList = before ++ cut ++ after ∧ byteLength before = e.start ∧
      byteLength (before ++ cut) = e.stop ∧ allBlank cut = true ∧
      e.applyTo? source = some (String.ofList (before ++ e.text.toList ++ after)) ∧
      solid source.toList = solid before ++ solid after := by
  obtain ⟨mid, cut⟩ := exists_slice? placed.forward placed.start placed.stop
  obtain ⟨before, after, whole, start, stop⟩ := slice?_eq_some_iff.mp cut
  have blank := blanks mid cut
  refine ⟨before, mid, after, whole, start, stop, blank,
    TextEdit.applyTo?_eq_some_iff.mpr ⟨before, mid, after, whole, start, stop, rfl⟩, ?_⟩
  rw [whole, solid_append, solid_append, solid_of_blank blank, List.append_nil]

/-- Whatever source is read and whatever mutation is asked for, no cut on the way fails, and an edit
lies between characters of the source and takes out blanks alone. Everything else is left, in order,
around the new text. -/
theorem Mutation.edit_only_adds (read : parseUnit source dialect = .ok u) (m : Mutation) :
    (∀ error, m.edit source u dialect = .error error →
      error ≠ .fault ∧ error ≠ .invalidMember .fault) ∧
    ∀ e, m.edit source u dialect = .ok (some e) →
      e.start ≤ e.stop ∧ e.stop ≤ source.utf8ByteSize ∧ ∃ before cut after,
        source.toList = before ++ cut ++ after ∧ byteLength before = e.start ∧
        byteLength (before ++ cut) = e.stop ∧ allBlank cut = true ∧
        e.applyTo? source = some (String.ofList (before ++ e.text.toList ++ after)) ∧
        solid source.toList = solid before ++ solid after := by
  have bounded := CompilationUnit.bounded_of_parseUnit read
  refine ⟨fun error => Mutation.edit_error bounded, fun e computed => ?_⟩
  have placed := Mutation.placed_edit bounded computed
  have inside := placed.stop.le
  rw [byteLength_toList] at inside
  exact ⟨placed.forward, inside, placed.only_adds ((Mutation.edit_ok computed).1 e rfl)⟩

end Edits

/-- An enum with a comma behind its constants. A letter in front of it takes two bytes. -/
def openEnum : String :=
  "/* é */ enum E \x7b A, \x7d"

def openEnumUnit : CompilationUnit :=
  ⟨none, [], 0, [⟨.enum, "E", .empty, [], none, [], [], [.constant ⟨"A", none, ⟨18, 19⟩⟩], none,
    ⟨16, 22⟩, ⟨9, 22⟩⟩], [0]⟩

theorem openEnum_only_grows : parseUnit openEnum .java = .ok openEnumUnit ∧
    (Mutation.insertMember "E" "E() \x7b\x7d").edit openEnum openEnumUnit .java =
      .ok (some ⟨20, 21, ";\n\n    E() \x7b\x7d\n"⟩) ∧
    ∃ before cut after, openEnum.toList = before ++ cut ++ after ∧ byteLength before = 20 ∧
      byteLength (before ++ cut) = 21 ∧ allBlank cut = true ∧
      solid openEnum.toList = solid before ++ solid after := by
  have read : parseUnit openEnum .java = .ok openEnumUnit := eq_ok_of_toOption (by decide +kernel)
  have computed : (Mutation.insertMember "E" "E() \x7b\x7d").edit openEnum openEnumUnit .java =
      .ok (some ⟨20, 21, ";\n\n    E() \x7b\x7d\n"⟩) := eq_ok_of_toOption (by decide +kernel)
  obtain ⟨_, _, before, cut, after, whole, start, stop, blank, _, left⟩ :=
    (Mutation.edit_only_adds read _).2 _ computed
  exact ⟨read, computed, before, cut, after, whole, start, stop, blank, left⟩

end CreatorSynth
