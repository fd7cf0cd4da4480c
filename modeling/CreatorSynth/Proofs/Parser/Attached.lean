import CreatorSynth.Proofs.Parser.Documentation
import CreatorSynth.Proofs.Parser.Errors
import CreatorSynth.Proofs.Parser.Growth

/-! The parsers of members, classes and whole sources give each declaration the comment that belongs
to it, and break off the documentation behind what they read. -/
namespace CreatorSynth
open Text Located CreatorSynth.Parser

namespace Member

/-- How a field, a method, a constructor or a block of statements is documented. -/
structure Typed (span : Span) (doc : Option String) (m : Member) : Prop where
  documented : m.documented? = some (span, doc)
  leaf : m.leaf? = some span
  stop : m.end? = some span.stop
  other : m.constantStop? = none

end Member

theorem mem_filterMap_of_forall {α β : Type} {f : α → Option β} {xs : List α} {b : β}
    (some : xs ≠ []) (all : ∀ x ∈ xs, f x = Option.some b) (y : β) :
    y ∈ xs.filterMap f ↔ y = b := by
  rw [List.mem_filterMap]
  constructor
  · rintro ⟨x, member, same⟩
    rw [all x member] at same
    exact (Option.some.inj same).symm
  · rintro rfl
    obtain ⟨x, _, rfl⟩ := List.exists_cons_of_ne_nil some
    exact ⟨x, List.mem_cons_self, all x List.mem_cons_self⟩

/-- A declaration begins at a cursor in the tokens, and its modifiers were read from there. -/
structure Cursor.Begun (src : Source) (tokens : List Located) (c₀ : Cursor) (start : Nat)
    (doc : Option String) (c : Cursor) : Prop where
  stood : c₀.Stood tokens
  moves : ∃ front, c₀.Moves front c
  floor : c.docFloor = c₀.docFloor
  classes : c.classes = c₀.classes
  begins : start = (c₀.rest.head?.map (·.start)).getD src.stop
  takes : doc = Parser.docAt src c₀ start

namespace Cursor

variable {src : Source} {tokens taken : List Located} {c₀ c c' : Cursor} {members : List Member}
  {start : Nat} {doc : Option String}

theorem Begun.here (begun : c₀.Begun src tokens start doc c) : c.Stood tokens := by
  obtain ⟨front, moves⟩ := begun.moves
  refine begun.stood.moves moves ?_
  rw [begun.floor]
  exact Nat.le_trans begun.stood.floor (begun.stood.later_of_moves moves)

theorem Begun.first (begun : c₀.Begun src tokens start doc c) (moves : c.Moves taken c')
    (some : taken ≠ []) : c₀.lastStop ≤ start ∧ start < c'.lastStop := by
  obtain ⟨front, before⟩ := begun.moves
  rw [begun.begins]
  exact begun.stood.begins (before.trans moves) (List.append_ne_nil_of_right_ne_nil _ some) _

/-- Members, and the classes in them, are read and documented. -/
def Notes (src : Source) (tokens : List Located) (c : Cursor) (members : List Member)
    (c' : Cursor) : Prop :=
  (∀ m ∈ members, m.constantStop? = none) ∧ ∃ added, c'.classes = c.classes ++ added ∧
    c.Documents src tokens (.ofMembers members ++ .ofClasses tokens added) c'

/-- A class that begins at an offset, and the classes in it, are read and documented. -/
def NotesClass (src : Source) (tokens : List Located) (c : Cursor) (start : Nat) (c' : Cursor) :
    Prop :=
  start < c'.lastStop ∧ ∃ added, c'.classes = c.classes ++ added ∧
    c'.lastStop ∈ (Marks.ofClasses tokens added).ends ∧
    c.Documents src tokens (.ofClasses tokens added) c'

theorem Notes.stood (notes : c.Notes src tokens members c') : c'.Stood tokens := by
  obtain ⟨_, _, _, documents⟩ := notes
  exact documents.stood

theorem Notes.append {mid : Cursor} {more : List Member} (here : c.Stood tokens)
    (first : c.Notes src tokens members mid) (second : mid.Notes src tokens more c') :
    c.Notes src tokens (members ++ more) c' := by
  obtain ⟨others, added, classes, documents⟩ := first
  obtain ⟨others', added', classes', documents'⟩ := second
  refine ⟨fun m member => ?_, added ++ added', ?_, (documents.trans here documents').congr ?_⟩
  · exact (List.mem_append.mp member).elim (others m) (others' m)
  · rw [classes', classes, List.append_assoc]
  · rw [Marks.ofMembers_append, Marks.ofClasses_append]
    exact Marks.same_swap

theorem Notes.nothing {α : Type} {p : Parser α} [Parser.Onward p] [Parser.KeepsDocs p]
    [Parser.Quiet p] {a : α} (here : c.Stood tokens) (run : p.on src c = .ok (a, c')) :
    c.Notes src tokens [] c' :=
  ⟨nofun, [], by rw [Parser.Quiet.classes run, List.append_nil], .quiet here run⟩

end Cursor

namespace Parser

variable {src : Source} {tokens : List Located} {c c' : Cursor} {members : List Member}

section Members

variable {modifiers : Modifiers} {typeParams : List TypeParam} {returnType : Option TypeRef}
  {type : TypeRef} {className name : String} {start : Nat} {doc : Option String}

theorem methodRest_typed {m : MethodDecl}
    (run : (methodRest modifiers typeParams returnType name start doc).on src c = .ok (m, c')) :
    m.span = ⟨start, max c'.lastStop start⟩ ∧ m.doc = doc := by
  refine ⟨methodRest_span run, ?_⟩
  obtain ⟨_, _, _, run⟩ := on_bind_eq_ok.mp run
  obtain ⟨_, _, _, run⟩ := on_bind_eq_ok.mp run
  obtain ⟨_, _, _, run⟩ := on_bind_eq_ok.mp run
  obtain ⟨_, _, _, run⟩ := on_bind_eq_ok.mp run
  cases run
  rfl

theorem typedMember_typed
    (run : (typedMember className modifiers start doc).on src c = .ok (members, c')) :
    members ≠ [] ∧ ∀ m ∈ members, m.Typed ⟨start, max c'.lastStop start⟩ doc := by
  have one {m : Member} (typed : m.Typed ⟨start, max c'.lastStop start⟩ doc) :
      [m] ≠ [] ∧ ∀ m' ∈ [m], m'.Typed ⟨start, max c'.lastStop start⟩ doc :=
    ⟨List.cons_ne_nil _ _, fun m' member => List.mem_singleton.mp member ▸ typed⟩
  have method {typeParams returnType name c m c₁}
      (made : (methodRest modifiers typeParams returnType name start doc).on src c = .ok (m, c₁)) :
      (Member.method m).Typed ⟨start, max c₁.lastStop start⟩ doc ∧
        (Member.constructor m).Typed ⟨start, max c₁.lastStop start⟩ doc := by
    obtain ⟨span, rfl⟩ := methodRest_typed made
    rw [← span]
    exact ⟨⟨rfl, rfl, rfl, rfl⟩, ⟨rfl, rfl, rfl, rfl⟩⟩
  obtain ⟨typeParams, _, _, run⟩ := on_bind_eq_ok.mp run
  rw [on_bind_of_ok (on_upcoming 2)] at run
  split at run
  · obtain ⟨m, _, made, run⟩ := on_bind_eq_ok.mp run
    cases run
    obtain ⟨_, _, _, made⟩ := on_bind_eq_ok.mp made
    obtain ⟨_, _, _, made⟩ := on_bind_eq_ok.mp made
    cases made
    exact one ⟨rfl, rfl, rfl, rfl⟩
  · split at run
    · obtain ⟨_, _, _, run⟩ := on_bind_eq_ok.mp run
      obtain ⟨m, _, made, run⟩ := on_bind_eq_ok.mp run
      cases run
      exact one (method made).2
    · obtain ⟨_, _, _, run⟩ := on_bind_eq_ok.mp run
      obtain ⟨_, _, _, run⟩ := on_bind_eq_ok.mp run
      rw [on_bind_of_ok (on_sees _)] at run
      split at run
      · obtain ⟨m, _, made, run⟩ := on_bind_eq_ok.mp run
        cases run
        exact one (method made).1
      · obtain ⟨_, _, _, run⟩ := on_bind_eq_ok.mp run
        obtain ⟨_, _, _, run⟩ := on_bind_eq_ok.mp run
        obtain ⟨_, _, _, run⟩ := on_bind_eq_ok.mp run
        cases run
        refine ⟨List.cons_ne_nil _ _, fun m member => ?_⟩
        obtain ⟨_, _, rfl⟩ := List.mem_map.mp member
        exact ⟨rfl, rfl, rfl, rfl⟩

end Members

/-- A declaration other than a class takes its comment, and the next one takes none in front of its
end. -/
theorem typedMember_notes {className : String} {modifiers : Modifiers} {start : Nat}
    {doc : Option String} {c₀ : Cursor} (begun : c₀.Begun src tokens start doc c)
    (run : (typedMember className modifiers start doc).on src c = .ok (members, c')) :
    c₀.Notes src tokens members { c' with docFloor := c'.lastStop } := by
  obtain ⟨some, typed⟩ := typedMember_typed run
  obtain ⟨taken, moves⟩ := Onward.onward run
  have first := begun.first moves (Cursor.Moves.ne_nil moves (Eats.eats run))
  have stop : max c'.lastStop start = c'.lastStop := Nat.max_eq_left (by omega)
  rw [stop] at typed
  have behind : c'.Stood tokens := (begun.here.run run).1
  have later := begun.here.later_of_moves moves
  refine ⟨fun m member => (typed m member).other, [], ?_, ?_⟩
  · rw [List.append_nil]
    exact (Quiet.classes run).trans begun.classes
  · have none : (Marks.ofMembers members ++ Marks.ofClasses tokens []) = Marks.ofMembers members :=
      Marks.append_nil _ _
    have documented := mem_filterMap_of_forall some fun m member => (typed m member).documented
    have closed := mem_filterMap_of_forall some fun m member => (typed m member).leaf
    rw [none]
    refine .single begun.stood ⟨behind.order, behind.positive, behind.split, behind.later,
      Nat.le_refl _⟩ first.1 (Nat.le_trans first.1 first.2.le)
      (mem_filterMap_of_forall some fun m member => (typed m member).stop) ?_ ?_ ?_
    · intro s inside
      rw [(closed s).mp inside]
      exact ⟨Nat.le_refl _, first.2, Nat.le_refl _⟩
    · intro p member
      rw [(documented p).mp member]
      exact ⟨rfl, begun.takes, _, (closed _).mpr rfl, rfl⟩
    · intro p member q member'
      rw [(documented p).mp member, (documented q).mp member']

section Constants

theorem enumConstant_constant {constant : Member}
    (run : enumConstant.on src c = .ok (constant, c')) :
    ∃ decl, constant = .constant decl ∧ decl.span =
      ⟨(c.rest.head?.map (·.start)).getD src.stop,
        max c'.lastStop ((c.rest.head?.map (·.start)).getD src.stop)⟩ := by
  rw [enumConstant, on_bind_of_ok on_nextStart] at run
  obtain ⟨_, _, _, run⟩ := on_bind_eq_ok.mp run
  obtain ⟨_, _, _, run⟩ := on_bind_eq_ok.mp run
  obtain ⟨_, _, _, run⟩ := on_bind_eq_ok.mp run
  obtain ⟨_, _, _, run⟩ := on_bind_eq_ok.mp run
  cases run
  exact ⟨_, rfl, rfl⟩

theorem constantsEnd_semicolon (head : c.rest.head?.map (·.token) = some (.symbol .semicolon)) :
    constantsEnd c.lastStop c.rest = c.next.lastStop := by
  rcases c with ⟨_ | ⟨t, rest⟩, last, floor, classes⟩
  · cases head
  · have token : t.token = .symbol .semicolon := Option.some.inj head
    simp [constantsEnd, token, Cursor.next]

theorem constantsEnd_comma (head : c.rest.head?.map (·.token) = some (.symbol .comma)) :
    constantsEnd c.lastStop c.rest = constantsEnd c.next.lastStop c.next.rest := by
  rcases c with ⟨_ | ⟨t, rest⟩, last, floor, classes⟩
  · cases head
  · have token : t.token = .symbol .comma := Option.some.inj head
    simp [constantsEnd, token, Cursor.next]

theorem constantsEnd_other (comma : c.rest.head?.map (·.token) ≠ some (.symbol .comma))
    (semicolon : c.rest.head?.map (·.token) ≠ some (.symbol .semicolon)) :
    constantsEnd c.lastStop c.rest = c.lastStop := by
  rcases c with ⟨_ | ⟨t, rest⟩, last, floor, classes⟩
  · rfl
  · rw [constantsEnd, if_neg fun same => comma (congrArg some same),
      if_neg fun same => semicolon (congrArg some same)]

/-- Behind the last constant there is a semicolon, which may be missing in front of a brace, and in
Groovy anywhere. -/
theorem endConstants_stop (run : endConstants.on src c = .ok (⟨⟩, c'))
    (comma : c.rest.head?.map (·.token) ≠ some (.symbol .comma)) :
    constantsEnd c.lastStop c.rest = c'.lastStop := by
  rw [endConstants, on_bind_of_ok (on_sees _)] at run
  split at run
  · rename_i brace
    cases run
    refine constantsEnd_other comma ?_
    rw [beq_iff_eq.mp brace]
    simp
  · rw [on_endDeclaration] at run
    split at run
    · obtain ⟨head, rfl⟩ := on_expect_eq_ok run
      exact constantsEnd_semicolon head
    · cases run
      split
      · rename_i head
        exact constantsEnd_semicolon head
      · rename_i semicolon
        exact constantsEnd_other comma semicolon

/-- The constants of an enum, and where their list ends. -/
structure Constants (tokens : List Located) (c : Cursor) (members : List Member) (c' : Cursor) :
    Prop where
  each : ∀ m ∈ members, ∃ decl, m = .constant decl ∧ c.lastStop ≤ decl.span.start ∧
    decl.span.start < decl.span.stop ∧ decl.span.stop ≤ c'.lastStop
  stop : c'.lastStop =
    constantsStop tokens ((members.filterMap Member.constantStop?).getLast?.getD c.lastStop)

theorem enumConstantsWithin_constants {bound : Nat} (here : c.Stood tokens)
    (run : (enumConstantsWithin bound).on src c = .ok (members, c')) :
    Constants tokens c members c' := by
  induction bound generalizing c members with
  | zero => cases run
  | succ bound ih =>
    have whole := here.run run
    rw [enumConstantsWithin] at run
    obtain ⟨ended, mid, first, run⟩ := on_bind_eq_ok.mp run
    rw [on_accept] at first
    split at first
    · rename_i head
      cases first
      cases run
      exact ⟨List.forall_mem_nil _,
        (here.constantsStop_eq.trans (constantsEnd_semicolon head)).symm⟩
    cases first
    rw [if_neg Bool.false_ne_true, on_bind_of_ok (on_sees _)] at run
    split at run
    · rename_i brace
      cases run
      refine ⟨List.forall_mem_nil _, (here.constantsStop_eq.trans (constantsEnd_other ?_ ?_)).symm⟩
      all_goals
        rw [beq_iff_eq.mp brace]
        simp
    obtain ⟨constant, behind, one, run⟩ := on_bind_eq_ok.mp run
    obtain ⟨decl, rfl, span⟩ := enumConstant_constant one
    obtain ⟨stood, later, _⟩ := here.run one
    obtain ⟨taken, moves⟩ := Onward.onward one
    have extent := here.begins moves (Cursor.Moves.ne_nil moves (Eats.eats one)) src.stop
    have stop : decl.span.stop = behind.lastStop := by
      rw [span]
      exact Nat.max_eq_left extent.2.le
    have inside : c.lastStop ≤ decl.span.start ∧ decl.span.start < behind.lastStop := by
      rw [span]
      exact extent
    have alone : (constantsEnd behind.lastStop behind.rest = c'.lastStop) →
        c'.lastStop = constantsStop tokens (([Member.constant decl].filterMap
          Member.constantStop?).getLast?.getD c.lastStop) := by
      intro ends
      show c'.lastStop = constantsStop tokens decl.span.stop
      rw [stop, stood.constantsStop_eq, ends]
    obtain ⟨further, next, separated, run⟩ := on_bind_eq_ok.mp run
    obtain ⟨stood', later', _⟩ := stood.run separated
    rw [on_accept] at separated
    split at separated
    · rename_i head
      cases separated
      obtain ⟨others, last, rest, run⟩ := on_bind_eq_ok.mp run
      cases run
      have later'' := (stood'.run rest).2.1
      have known := ih stood' rest
      refine ⟨fun m member => ?_, ?_⟩
      · rcases List.mem_cons.mp member with rfl | member
        · exact ⟨decl, rfl, by omega⟩
        · obtain ⟨other, same, between⟩ := known.each m member
          exact ⟨other, same, by omega⟩
      · cases others with
        | nil =>
          refine alone ?_
          rw [constantsEnd_comma head, known.stop, ← stood'.constantsStop_eq]
          rfl
        | cons m others =>
          obtain ⟨other, rfl, _⟩ := known.each m List.mem_cons_self
          rw [known.stop]
          simp [Member.constantStop?, List.getLast?_cons]
    · rename_i comma
      cases separated
      obtain ⟨_, last, end', run⟩ := on_bind_eq_ok.mp run
      cases run
      have later'' := (stood.run end').2.1
      refine ⟨fun m member => ⟨decl, List.mem_singleton.mp member, by omega⟩, ?_⟩
      exact alone (endConstants_stop end' comma)

/-- No declaration takes the documentation in the constants of an enum or behind one of them. -/
theorem leadingConstants_documents {kind : ClassKind} (here : c.Stood tokens)
    (run : (leadingConstants kind).on src c = .ok (members, c')) :
    c'.classes = c.classes ∧ c.Documents src tokens
      (.ofConstants tokens kind c.lastStop members ++ .ofMembers members) c' := by
  unfold leadingConstants at run
  split at run
  · rename_i enum
    rw [enumConstants, on_bind_of_ok on_get] at run
    obtain ⟨found, mid, first, run⟩ := on_bind_eq_ok.mp run
    obtain ⟨_, last, closed, run⟩ := on_bind_eq_ok.mp run
    cases run
    cases closeDocs_eq closed
    have known := enumConstantsWithin_constants here first
    obtain ⟨stood, later, _⟩ := here.run first
    have same := Quiet.classes first
    have ends : members.filterMap Member.end? = [] :=
      List.filterMap_eq_nil_iff.mpr fun m member => by
        obtain ⟨decl, rfl, _⟩ := known.each m member
        rfl
    have documented : members.filterMap Member.documented? = [] :=
      List.filterMap_eq_nil_iff.mpr fun m member => by
        obtain ⟨decl, rfl, _⟩ := known.each m member
        rfl
    have marks : (Marks.ofConstants tokens kind c.lastStop members ++ Marks.ofMembers members) =
        ⟨[], members.filterMap Member.leaf?, [mid.lastStop]⟩ := by
      show Marks.mk ([] ++ members.filterMap _) ([] ++ members.filterMap _)
        ((constantsEnd? tokens kind c.lastStop members).toList ++ members.filterMap _) = _
      rw [ends, documented, constantsEnd?, if_pos enum, ← known.stop]
      rfl
    rw [marks]
    refine ⟨same, .single here ⟨stood.order, stood.positive, stood.split, stood.later,
      Nat.le_refl _⟩ (Nat.le_refl _) later (fun e => List.mem_singleton) (fun s inside => ?_)
      (List.forall_mem_nil _) (List.forall_mem_nil _)⟩
    obtain ⟨m, member, leaf⟩ := List.mem_filterMap.mp inside
    obtain ⟨decl, rfl, between⟩ := known.each m member
    cases leaf
    exact between
  · rename_i other
    cases run
    have marks : (Marks.ofConstants tokens kind c.lastStop [] ++ Marks.ofMembers []) = .none := by
      rw [Marks.ofConstants, constantsEnd?, if_neg other]
      rfl
    rw [marks]
    have stays : (pure () : Parser Unit).on src c = .ok ((), c) := on_pure ()
    exact ⟨rfl, .quiet here stays⟩

end Constants

section Classes

variable {kind : ClassKind} {member : Parser (List Member)}

theorem classSteps_notes {found : List (List Member)}
    (each : ∀ {c ms c'}, c.Stood tokens → member.on src c = .ok (ms, c') →
      c.Notes src tokens ms c') (here : c.Stood tokens)
    (run : (many (classStep member)).on src c = .ok (found, c')) :
    c.Notes src tokens found.flatten c' := by
  refine many_induction (motive := fun c found c' => c.Stood tokens →
    c.Notes src tokens found.flatten c') ?_ ?_ run here
  · intro c c' ended here
    have stays : (pure () : Parser Unit).on src c = .ok ((), c) := on_pure ()
    rw [classStep_none ended]
    exact .nothing here stays
  · intro c mid c' members others stepped further here
    obtain ⟨behind, more, one⟩ := classStep_some stepped
    have before : c.Notes src tokens members mid :=
      .append here (.nothing here more) (each (here.run more).1 one)
    exact .append here before (further before.stood)

theorem ofConstants_append {start : Nat} {others : List Member}
    (none : ∀ m ∈ others, m.constantStop? = none) :
    Marks.ofConstants tokens kind start (members ++ others) =
      Marks.ofConstants tokens kind start members := by
  have empty : others.filterMap Member.constantStop? = [] := List.filterMap_eq_nil_iff.mpr none
  simp only [Marks.ofConstants, constantsEnd?, List.filterMap_append, empty, List.append_nil]

theorem classBody_documents
    (each : ∀ {c ms c'}, c.Stood tokens → member.on src c = .ok (ms, c') →
      c.Notes src tokens ms c') (here : c.Stood tokens)
    (run : (classBody kind member).on src c = .ok (members, c')) :
    ∃ added, c'.classes = c.classes ++ added ∧ c.Documents src tokens
      (.ofConstants tokens kind c.lastStop members ++
        (.ofMembers members ++ .ofClasses tokens added)) c' := by
  obtain ⟨constants, mid, first, run⟩ := on_bind_eq_ok.mp run
  obtain ⟨others, last, rest, run⟩ := on_bind_eq_ok.mp run
  cases run
  obtain ⟨same, before⟩ := leadingConstants_documents here first
  obtain ⟨none, added, classes, behind⟩ := classSteps_notes each before.stood rest
  have both := before.trans here behind
  rw [Marks.append_assoc, ← Marks.append_assoc (Marks.ofMembers constants),
    ← Marks.ofMembers_append, ← ofConstants_append none] at both
  exact ⟨added, by rw [classes, same], both⟩

theorem bracedBody_cases {span : Span}
    (run : (bracedBody kind member).on src c = .ok ((members, span), c')) :
    ∃ start mid, c.rest.head?.map (·.token) = some (.symbol .lbrace) ∧
      start = (c.rest.head?.map (·.start)).getD src.stop ∧
      (classBody kind member).on src { c.next with docFloor := start } = .ok (members, mid) ∧
      mid.rest.head?.map (·.token) = some (.symbol .rbrace) ∧ span.start = start ∧
      c' = mid.next := by
  rw [bracedBody, on_bind_of_ok on_nextStart] at run
  obtain ⟨_, opened, opens, run⟩ := on_bind_eq_ok.mp run
  obtain ⟨brace, rfl⟩ := on_expect_eq_ok opens
  rw [on_bind_of_ok (on_raiseDocFloor _)] at run
  obtain ⟨found, mid, body, run⟩ := on_bind_eq_ok.mp run
  obtain ⟨_, _, closes, run⟩ := on_bind_eq_ok.mp run
  obtain ⟨brace', rfl⟩ := on_expect_eq_ok closes
  cases run
  exact ⟨_, mid, brace, rfl, body, brace', rfl, rfl⟩

theorem classOver_cases {inner : String → Parser (List Member)} {modifiers : Modifiers}
    {start : Nat} {doc : Option String} {id : ClassId}
    (run : (classOver inner modifiers start doc).on src c = .ok (id, c')) :
    ∃ (head : ClassHead) (behind last : Cursor) (d : ClassDecl),
      classHead.on src c = .ok (head, behind) ∧
      (bracedBody head.kind (inner head.name)).on src behind =
        .ok ((d.members, d.bodySpan), last) ∧
      d.kind = head.kind ∧ d.doc = doc ∧ d.span = ⟨start, max last.lastStop start⟩ ∧
      c' = { last with docFloor := last.lastStop, classes := last.classes ++ [d] } := by
  obtain ⟨head, behind, first, run⟩ := on_bind_eq_ok.mp run
  obtain ⟨body, last, braced, run⟩ := on_bind_eq_ok.mp run
  obtain ⟨_, closed, docs, run⟩ := on_bind_eq_ok.mp run
  cases closeDocs_eq docs
  cases run
  exact ⟨head, behind, last, _, first, braced, rfl, rfl, rfl, rfl⟩

theorem brace_stop (holds : src.Holds tokens) (here : c.Stood tokens)
    (brace : c.rest.head?.map (·.token) = some (.symbol .lbrace)) :
    c.next.lastStop = (c.rest.head?.map (·.start)).getD src.stop + 1 := by
  rcases c with ⟨_ | ⟨t, rest⟩, last, floor, classes⟩
  · cases brace
  · have token : t.token = .symbol .lbrace := Option.some.inj brace
    have stands := holds.stands t (here.among List.mem_cons_self)
    have stop := stands.stop
    rw [token] at stop
    exact stop

/-- Behind the brace that opens a class. -/
abbrev openedAt (c : Cursor) (brace : Nat) : Cursor :=
  { c.next with docFloor := brace }

/-- Behind the brace that closes a class, which is put behind those read before it. -/
abbrev closedWith (c : Cursor) (d : ClassDecl) : Cursor :=
  { c.next with docFloor := c.next.lastStop, classes := c.next.classes ++ [d] }

theorem documents_opened {d : ClassDecl} {head : ClassHead} {start brace : Nat}
    {doc : Option String} {c₀ behind : Cursor} (begun : c₀.Begun src tokens start doc c)
    (run : classHead.on src c = .ok (head, behind))
    (opens : behind.rest.head?.map (·.token) = some (.symbol .lbrace))
    (at_brace : brace = (behind.rest.head?.map (·.start)).getD src.stop)
    (span : d.span.start = start) (takes : d.doc = doc) :
    start < brace ∧ c₀.Documents src tokens ⟨[(d.span, d.doc)], [⟨start, brace⟩], [brace]⟩
      (openedAt behind brace) := by
  obtain ⟨front, moves⟩ := Onward.onward run
  have first := begun.first moves (Cursor.Moves.ne_nil moves (Eats.eats run))
  obtain ⟨stood, _, _⟩ := begun.here.run run
  obtain ⟨u, _, step⟩ := Cursor.Moves.next_of_head opens
  have extent := stood.begins step (List.cons_ne_nil _ _) src.stop
  rw [← at_brace] at extent
  have across : behind.Moves [u] (openedAt behind brace) := ⟨step.rest, step.lastStop, step.classes⟩
  have further : start < brace := by omega
  have later : c₀.lastStop ≤ brace := by omega
  refine ⟨further, .single begun.stood (stood.moves across extent.2.le) first.1 later
    (fun e => List.mem_singleton) (fun s inside => ?_) (fun p inside => ?_)
    fun p inside q inside' => ?_⟩
  · rw [List.mem_singleton.mp inside]
    exact ⟨Nat.le_refl _, further, Nat.le_refl _⟩
  · rw [List.mem_singleton.mp inside, takes]
    exact ⟨span, begun.takes, _, List.mem_singleton_self _, rfl⟩
  · rw [List.mem_singleton.mp inside, List.mem_singleton.mp inside']

theorem documents_closed (here : c.Stood tokens)
    (closes : c.rest.head?.map (·.token) = some (.symbol .rbrace)) (d : ClassDecl) :
    c.lastStop < c.next.lastStop ∧
      c.Documents src tokens ⟨[], [], [c.next.lastStop]⟩ (closedWith c d) := by
  obtain ⟨u, _, step⟩ := Cursor.Moves.next_of_head closes
  have extent := here.begins step (List.cons_ne_nil _ _) src.stop
  have across : c.Moves [u] (closedWith c d) :=
    ⟨step.rest, step.lastStop, step.classes.trans (List.prefix_append _ _)⟩
  have later : c.lastStop < c.next.lastStop := by omega
  exact ⟨later, .single here (here.moves across (Nat.le_refl _)) (Nat.le_refl _) later.le
    (fun e => List.mem_singleton) nofun nofun nofun⟩

/-- A class takes its comment, and breaks off the documentation at its brace and at its end. -/
theorem classOver_notes [holds : src.Holds tokens] {inner : String → Parser (List Member)}
    {modifiers : Modifiers} {start : Nat} {doc : Option String} {id : ClassId} {c₀ : Cursor}
    (each : ∀ {name c ms c'}, c.Stood tokens → (inner name).on src c = .ok (ms, c') →
      c.Notes src tokens ms c')
    (begun : c₀.Begun src tokens start doc c)
    (run : (classOver inner modifiers start doc).on src c = .ok (id, c')) :
    c₀.NotesClass src tokens start c' := by
  obtain ⟨head, behind, last, d, first, braced, kind, doc_eq, span, rfl⟩ := classOver_cases run
  obtain ⟨brace, mid, opens, at_brace, body, closes, body_start, rfl⟩ := bracedBody_cases braced
  have span_start : d.span.start = start := by rw [span]
  obtain ⟨further, opening⟩ := documents_opened begun first opens at_brace span_start doc_eq
  have wide : behind.next.lastStop = brace + 1 := by
    rw [brace_stop holds (begun.here.run first).1 opens, at_brace]
  obtain ⟨added, classes, documents⟩ := classBody_documents each opening.stood body
  obtain ⟨later, closing⟩ := @documents_closed src tokens mid documents.stood closes d
  have inside : brace + 1 ≤ mid.lastStop := wide ▸ documents.later
  have beyond : start < mid.next.lastStop := by omega
  have stop : d.span.stop = mid.next.lastStop := by
    rw [span]
    exact Nat.max_eq_left beyond.le
  have same := Marks.same_class tokens d added
  rw [span_start, body_start, stop, kind, ← wide] at same
  refine ⟨beyond, added ++ [d], ?_, ?_,
    ((opening.trans begun.stood documents).trans begun.stood closing).congr same⟩
  · show mid.next.classes ++ [d] = _
    rw [Cursor.classes_next, classes, ← List.append_assoc]
    show behind.next.classes ++ added ++ [d] = _
    rw [Cursor.classes_next, Quiet.classes first, begun.classes]
  · exact (same.ends _).mp (Marks.mem_ends_append.mpr (.inr (List.mem_singleton_self _)))

theorem initializerBlock?_closed {start : Nat} {block : Member}
    (run : (initializerBlock? start).on src c = .ok (some block, c')) :
    ∃ isStatic, block = .initializer isStatic ⟨start, max c'.lastStop start⟩ ∧
      c'.docFloor = c'.lastStop := by
  obtain ⟨isStatic, mid, first, run⟩ := on_bind_eq_ok.mp run
  rw [on_bind_of_ok (on_sees _)] at run
  split at run
  · obtain ⟨_, _, _, run⟩ := on_bind_eq_ok.mp run
    obtain ⟨_, _, closed, run⟩ := on_bind_eq_ok.mp run
    cases closeDocs_eq closed
    cases run
    exact ⟨isStatic, rfl, rfl⟩
  · cases run

theorem initializerBlock?_notes {block : Member} (here : c.Stood tokens)
    (run : (initializerBlock? ((c.rest.head?.map (·.start)).getD src.stop)).on src c =
      .ok (some block, c')) : c.Notes src tokens [block] c' := by
  have two := initializerBlock?_taken _ run
  have same := Quiet.classes run
  obtain ⟨taken, moves⟩ := Onward.onward run
  have extent := here.begins moves (Cursor.Moves.ne_nil moves (by omega)) src.stop
  obtain ⟨isStatic, rfl, floor⟩ := initializerBlock?_closed run
  rw [Nat.max_eq_left extent.2.le]
  refine ⟨fun m member => List.mem_singleton.mp member ▸ rfl, [], by rw [same, List.append_nil], ?_⟩
  refine .single here (here.moves moves floor.le) extent.1
    (floor ▸ here.later_of_moves moves) (fun e => ?_) (fun s inside => ?_) nofun nofun
  · rw [floor]
    exact List.mem_singleton
  · rw [floor, List.mem_singleton.mp inside]
    exact ⟨Nat.le_refl _, extent.2, Nat.le_refl _⟩

theorem memberOver_notes {nested : Modifiers → Nat → Option String → Parser ClassId}
    {className : String} (here : c.Stood tokens)
    (inner : ∀ {modifiers start doc id} {c₀ c c' : Cursor}, c₀.Begun src tokens start doc c →
      (nested modifiers start doc).on src c = .ok (id, c') → c₀.NotesClass src tokens start c')
    (run : (memberOver nested className).on src c = .ok (members, c')) :
    c.Notes src tokens members c' := by
  rw [memberOver, on_bind_of_ok on_nextStart] at run
  obtain ⟨ended, mid, first, run⟩ := on_bind_eq_ok.mp run
  split at run
  · cases run
    exact .nothing here first
  · rename_i none
    rw [on_accept] at first
    split at first
    · cases first
      exact absurd rfl none
    cases first
    obtain ⟨found, mid, block, run⟩ := on_bind_eq_ok.mp run
    cases found with
    | some block' =>
      cases run
      exact initializerBlock?_notes here block
    | none =>
      obtain rfl := initializerBlock?_none block
      rw [declaredMember, on_bind_of_ok (on_docBefore _)] at run
      obtain ⟨modifiers, behind, words, run⟩ := on_bind_eq_ok.mp run
      have begun : mid.Begun src tokens _ _ behind := ⟨here, Onward.onward words,
        KeepsDocs.floor words, Quiet.classes words, rfl, rfl⟩
      rw [on_bind_of_ok (on_upcoming 2)] at run
      split at run
      · obtain ⟨id, last, one, run⟩ := on_bind_eq_ok.mp run
        cases run
        obtain ⟨later, added, classes, ends, documents⟩ := inner begun one
        refine ⟨fun m member => List.mem_singleton.mp member ▸ rfl, added, classes,
          documents.congr (Marks.same_nested ?_)⟩
        show max c'.lastStop _ ∈ _
        rwa [Nat.max_eq_left later.le]
      · obtain ⟨found, last, typed, run⟩ := on_bind_eq_ok.mp run
        obtain ⟨_, _, closed, run⟩ := on_bind_eq_ok.mp run
        cases closeDocs_eq closed
        cases run
        exact typedMember_notes begun typed

theorem classWithin_notes [src.Holds tokens] {depth : Nat} {modifiers : Modifiers} {start : Nat}
    {doc : Option String} {id : ClassId} {c₀ : Cursor} (begun : c₀.Begun src tokens start doc c)
    (run : (classWithin depth modifiers start doc).on src c = .ok (id, c')) :
    c₀.NotesClass src tokens start c' := by
  induction depth generalizing modifiers start doc c₀ c id c' with
  | zero => cases run
  | succ depth ih =>
    exact classOver_notes (fun here one => memberOver_notes here ih one) begun run

theorem classDecl_notes [src.Holds tokens] {modifiers : Modifiers} {start : Nat}
    {doc : Option String} {id : ClassId} {c₀ : Cursor} (begun : c₀.Begun src tokens start doc c)
    (run : (classDecl modifiers start doc).on src c = .ok (id, c')) :
    c₀.NotesClass src tokens start c' := by
  rw [classDecl, on_bind_of_ok on_get] at run
  exact classWithin_notes begun run

end Classes

section Units

/-- Where the package declaration and the imports among the items end. -/
def headerMarks (items : List Item) : Marks :=
  ⟨[], [], items.filterMap Item.headerStop?⟩

theorem header_documents {found : Item} {taken : List Located} (here : c.Stood tokens)
    (moves : c.Moves taken c') (floor : c'.docFloor = c'.lastStop)
    (stop : found.headerStop? = some c'.lastStop) :
    c.Documents src tokens (headerMarks [found]) c' := by
  have marks : headerMarks [found] = ⟨[], [], [c'.lastStop]⟩ := by
    rw [headerMarks, List.filterMap_cons, stop, List.filterMap_nil]
  rw [marks]
  refine .single here (here.moves moves floor.le) (Nat.le_refl _)
    (floor ▸ here.later_of_moves moves) (fun e => ?_) nofun nofun nofun
  rw [floor]
  exact List.mem_singleton

theorem item_documents [src.Holds tokens] {found : Item} (here : c.Stood tokens)
    (run : item.on src c = .ok (found, c')) :
    ∃ taken added, c.Moves taken c' ∧ found.Stands src c'.classes taken c'.rest ∧
      c'.classes = c.classes ++ added ∧
      c.Documents src tokens (headerMarks [found] ++ .ofClasses tokens added) c' := by
  obtain ⟨taken, reads, stands, closes⟩ := item_reads run
  suffices documents : ∃ added, c'.classes = c.classes ++ added ∧
      c.Documents src tokens (headerMarks [found] ++ .ofClasses tokens added) c' by
    obtain ⟨added, classes, documents⟩ := documents
    exact ⟨taken, added, reads.moves, stands, classes, documents⟩
  cases header : found.headerStop? with
  | some stop =>
    obtain ⟨classes, floor⟩ := closes (by simp [header])
    have last := (lastStop_eq reads.moves stands.ne_nil).symm.trans (stands.last_stop header)
    refine ⟨[], by rw [classes, List.append_nil], ?_⟩
    rw [Marks.append_nil]
    exact header_documents here reads.moves floor (header.trans last.symm)
  | none =>
    obtain ⟨ended, mid, first, further⟩ := on_bind_eq_ok.mp run
    have stays := first
    obtain ⟨rfl, _⟩ | ⟨rfl, rfl, _⟩ := acceptToken_taken first
    · cases further
      exact ⟨[], by rw [classes_of_contained stays, List.append_nil], .quiet here stays⟩
    rw [if_neg Bool.false_ne_true, on_bind_of_ok on_nextStart, on_bind_of_ok (on_docBefore _)]
      at further
    obtain ⟨modifiers, behind, words, run⟩ := on_bind_eq_ok.mp further
    rw [on_bind_of_ok (on_upcoming 2)] at run
    unfold itemFrom at run
    split at run
    · obtain ⟨_, _, _, _, rfl, _⟩ := packageItem_reads run
      cases header
    split at run
    · obtain ⟨_, _, _, _, rfl, _⟩ := importItem_reads run
      cases header
    split at run
    · obtain ⟨id, last, read, run⟩ := on_bind_eq_ok.mp run
      cases run
      have begun : mid.Begun src tokens _ _ behind := ⟨here, Onward.onward words,
        KeepsDocs.floor words, Quiet.classes words, rfl, rfl⟩
      obtain ⟨_, added, classes, _, documents⟩ := classDecl_notes begun read
      exact ⟨added, classes, documents⟩
    · rw [on_bind_of_ok on_nextStart] at run
      cases run

theorem headerMarks_cons (found : Item) (items : List Item) :
    headerMarks (found :: items) = headerMarks [found] ++ headerMarks items := by
  show Marks.mk [] [] ((found :: items).filterMap _) =
    ⟨[], [], [found].filterMap _ ++ items.filterMap _⟩
  rw [← List.filterMap_append]
  rfl

/-- What is ahead is read item by item, and each class in it is documented. -/
def ReadsSections (src : Source) (tokens : List Located) (c : Cursor) (items : List Item)
    (c' : Cursor) : Prop :=
  Sections src c'.classes c.rest items ∧
    ∃ added, c'.classes = c.classes ++ added ∧
      c.Documents src tokens (headerMarks items ++ .ofClasses tokens added) c'

theorem unit_documents [src.Holds tokens] {u : CompilationUnit} (here : c.Stood tokens)
    (run : unit.on src c = .ok (u, c')) :
    ∃ items, ReadsSections src tokens c items c' ∧
      u = { items.foldl Item.addTo CompilationUnit.empty with classes := c'.classes } := by
  obtain ⟨items, last, each, run⟩ := on_bind_eq_ok.mp run
  rw [on_bind_of_ok on_get] at run
  cases run
  refine ⟨items, ?_, rfl⟩
  refine many_induction (motive := fun c items c' => c.Stood tokens →
    ReadsSections src tokens c items c') ?_ ?_ each here
  · intro c c' ended here
    obtain ⟨none, rfl⟩ := unitStep_none ended
    have stays : (pure () : Parser Unit).on src c' = .ok ((), c') := on_pure ()
    exact ⟨none ▸ .nil, [], (List.append_nil _).symm, .quiet here stays⟩
  · intro c mid c' found items stepped behind here
    obtain ⟨taken, added, moves, first, classes, documents⟩ :=
      item_documents here (unitStep_some stepped)
    obtain ⟨others, added', classes', documents'⟩ := behind documents.stood
    refine ⟨?_, added ++ added', ?_, ?_⟩
    · rw [moves.rest]
      exact .cons (first.mono ⟨added', classes'.symm⟩) others
    · rw [classes', classes, List.append_assoc]
    · refine (documents.trans here documents').congr ?_
      rw [headerMarks_cons found items, Marks.ofClasses_append]
      exact Marks.same_swap

end Units

end Parser

namespace CompilationUnit

/-- All classes, fields, methods and constructors of a unit, each with its place and
documentation. -/
def documented (u : CompilationUnit) : List (Span × Option String) :=
  u.classes.flatMap ClassDecl.documented

/-- Where a unit with these items at its top breaks off the documentation in front. -/
def docEnds (tokens : List Located) (items : List Item) (u : CompilationUnit) : List Nat :=
  items.filterMap Item.headerStop? ++ u.classes.flatMap (ClassDecl.docEnds tokens)

/-- Every declaration has the comment that belongs to it, none has that of another one, and none has
one that stands in a member it is not in. -/
structure Documented (docs : List Located) (ends : List Nat) (u : CompilationUnit) : Prop where
  attached : ∀ p ∈ u.documented, p.2 = (attached docs ends p.1.start).map (·.token.text)
  once : ∀ p ∈ u.documented, ∀ q ∈ u.documented, ∀ d,
    CreatorSynth.attached docs ends p.1.start = some d →
    CreatorSynth.attached docs ends q.1.start = some d → p = q
  outside : ∀ c ∈ u.classes, ∀ m ∈ c.members, ∀ p ∈ u.documented, ∀ d,
    CreatorSynth.attached docs ends p.1.start = some d →
    m.span.start ≤ d.start → d.stop ≤ m.span.stop →
    m.leaf? = none ∧ m.span.start < p.1.start ∧ p.1.start < m.span.stop

end CompilationUnit

theorem stood_start {tokens : List Located} (order : InOrder tokens)
    (positive : ∀ t ∈ tokens, t.start < t.stop) : (⟨tokens, 0, 0, []⟩ : Cursor).Stood tokens :=
  ⟨order, positive, ⟨[], rfl, nofun⟩, fun _ _ => Nat.zero_le _, Nat.le_refl _⟩

namespace Cursor.Documents

variable {src : Source} {tokens : List Located} {c c' : Cursor} {marks : Marks}
  {u : CompilationUnit} {text : List Char}

/-- Members of other members apart, a comment in a member is that of a class in it. -/
theorem outside (documents : c.Documents src tokens marks c') (placed : u.Placed src tokens)
    (positive : ∀ d ∈ src.docs, d.start < d.stop) {d : ClassDecl}
    (closed : ∀ d ∈ u.classes, ∀ s ∈ d.closed, s ∈ marks.closed)
    (ends : ∀ d ∈ u.classes, d.span.stop ∈ marks.ends) (here : d ∈ u.classes) {m : Member}
    (member : m ∈ d.members) {p : Span × Option String} (documented : p ∈ marks.documented)
    {comment : Located} (found : CreatorSynth.attached src.docs marks.ends p.1.start = some comment)
    (low : m.span.start ≤ comment.start) (high : comment.stop ≤ m.span.stop) :
    m.leaf? = none ∧ m.span.start < p.1.start ∧ p.1.start < m.span.stop := by
  obtain ⟨inside, stop, above⟩ := attached_eq_some found
  have some := positive comment inside
  cases leaf : m.leaf? with
  | some span =>
    have stretch : span ∈ d.closed :=
      List.mem_cons_of_mem _ (List.mem_filterMap.mpr ⟨m, member, leaf⟩)
    have same : m.span = span := by cases m <;> cases leaf <;> rfl
    have behind := documents.behind_closed documented found (closed d here span stretch)
    rw [same] at low high
    omega
  | none =>
    obtain ⟨id, span, rfl⟩ : ∃ id span, m = .nested id span := by
      cases m <;> first | exact ⟨_, _, rfl⟩ | cases leaf
    obtain ⟨inner, known, rfl⟩ := (placed.classes d here).nested id span member
    have among : inner ∈ u.classes := List.mem_of_getElem? known
    have head := documents.behind_closed documented found
      (closed inner among ⟨inner.span.start, inner.bodySpan.start⟩ List.mem_cons_self)
    have later := above inner.span.stop (ends inner among)
    refine ⟨rfl, ?_, ?_⟩
    · show inner.span.start < p.1.start
      have low : inner.span.start ≤ comment.start := low
      omega
    · show p.1.start < inner.span.stop
      have high : comment.stop ≤ inner.span.stop := high
      omega

end Cursor.Documents

/-- Every source that is read is documented. Its items are known up to their tokens, so it is known
what ends where. -/
theorem parseUnit_documented {text : String} {dialect : Dialect} {u : CompilationUnit}
    (read : parseUnit text dialect = .ok u) :
    ∃ (located : List Located) (items : List Item), tokenize text = .ok located ∧
      Sections (sourceOf text dialect located) u.classes (codeTokens located) items ∧
      u.MadeOf items ∧
      u.Documented (located.filter (·.token.isDoc)) (u.docEnds (codeTokens located) items) := by
  obtain ⟨located, c', tokens, run⟩ := parseUnit_eq_ok.mp read
  have holds := @holds_of_tokenize text dialect located tokens
  have placed := CompilationUnit.placed_of_unit tokens run
  obtain ⟨all_order, stand⟩ := tokenize_places tokens
  have here : (start located).Stood (codeTokens located) :=
    stood_start (all_order.filter _) fun t member => (stand t (List.mem_filter.mp member).1).some
  have positive : ∀ d ∈ located.filter (·.token.isDoc), d.start < d.stop := fun d member =>
    (stand d (List.mem_filter.mp member).1).some
  obtain ⟨items, ⟨sections, added, classes, documents⟩, whole⟩ := unit_documents here run
  have same : u.classes = c'.classes := by rw [whole]
  have classes : u.classes = added := same.trans classes
  rw [← same] at sections
  rw [← classes] at documents
  refine ⟨located, items, tokens, sections, whole ▸ CompilationUnit.madeOf_foldl items c'.classes,
    fun p member => documents.attached rfl member, fun p member q member' d found found' => ?_,
    fun d here m member p documented comment found low high => ?_⟩
  · exact documents.eq_of_attached positive member member' found found'
  · refine documents.outside placed positive (fun d inside s stretch => ?_) (fun d inside => ?_)
      here member documented found low high
    · exact List.mem_flatMap.mpr ⟨d, inside, stretch⟩
    · exact List.mem_append_right _
        (List.mem_flatMap.mpr ⟨d, inside, by simp [ClassDecl.docEnds]⟩)

/-- An enum with a comment behind its constant and one in front of two fields. -/
def documentedEnum : String :=
  "/** a */ enum E \x7b A /** b */ ; /** c */ int x, y; int z; \x7d"

def documentedEnumUnit : CompilationUnit :=
  let field (name : String) (doc : Option String) (span : Span) : Member :=
    .field ⟨.empty, .simple "int", name, none, doc, span⟩
  ⟨none, [], 0,
    [⟨.enum, "E", .empty, [], none, [], [],
      [.constant ⟨"A", none, ⟨18, 19⟩⟩, field "x" "/** c */" ⟨40, 49⟩,
       field "y" "/** c */" ⟨40, 49⟩, field "z" none ⟨50, 56⟩],
      "/** a */", ⟨16, 58⟩, ⟨9, 58⟩⟩], [0]⟩

/-- The comment behind the constant belongs to no field, and the two fields in one declaration have
the same one. -/
theorem documentedEnum_documented : parseUnit documentedEnum .java = .ok documentedEnumUnit ∧
    documentedEnumUnit.documented = [(⟨9, 58⟩, some "/** a */"), (⟨40, 49⟩, some "/** c */"),
      (⟨40, 49⟩, some "/** c */"), (⟨50, 56⟩, none)] ∧
    ∃ ends, documentedEnumUnit.Documented [⟨.doc "/** a */", 0, 8⟩, ⟨.doc "/** b */", 20, 28⟩,
      ⟨.doc "/** c */", 31, 39⟩] ends := by
  have read : parseUnit documentedEnum .java = .ok documentedEnumUnit :=
    eq_ok_of_toOption (by decide +kernel)
  obtain ⟨located, items, tokens, _, _, documented⟩ := parseUnit_documented read
  have docs : ((tokenize documentedEnum).toOption.map fun found =>
      found.filter (·.token.isDoc)) = some [⟨.doc "/** a */", 0, 8⟩, ⟨.doc "/** b */", 20, 28⟩,
        ⟨.doc "/** c */", 31, 39⟩] := by decide +kernel
  rw [tokens] at docs
  have comments : located.filter (·.token.isDoc) = _ := Option.some.inj docs
  rw [comments] at documented
  exact ⟨read, rfl, _, documented⟩

end CreatorSynth
