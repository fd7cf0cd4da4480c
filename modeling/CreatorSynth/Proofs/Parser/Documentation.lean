import CreatorSynth.Proofs.Parser.Places
import CreatorSynth.Proofs.Parser.Safe
import CreatorSynth.Proofs.Parser.Tame

/-! Which comment documents a declaration: the last one that ends in front of it, unless another
declaration, a list of enum constants or the brace of the class around it comes between the two. -/
namespace CreatorSynth
open Text Located CreatorSynth.Parser

/-- The last comment that ends in front of a declaration and does not begin before the floor. -/
def docBetween (docs : List Located) (floor start : Nat) : Option Located :=
  docs.reverse.find? fun d => decide (d.stop ≤ start) && decide (floor ≤ d.start)

/-- The comment that belongs to a declaration: the last one that ends in front of it and does not
begin in front of anything that ends there too. -/
def attached (docs : List Located) (ends : List Nat) (start : Nat) : Option Located :=
  docs.reverse.find? fun d => decide (d.stop ≤ start ∧ ∀ e ∈ ends, e ≤ start → e ≤ d.start)

theorem attached_eq_some {docs : List Located} {ends : List Nat} {start : Nat} {d : Located}
    (found : attached docs ends start = some d) :
    d ∈ docs ∧ d.stop ≤ start ∧ ∀ e ∈ ends, e ≤ start → e ≤ d.start := by
  rw [attached] at found
  have fits := List.find?_some found
  exact ⟨List.mem_reverse.mp (List.mem_of_find?_eq_some found), of_decide_eq_true fits⟩

/-- The floor that counts is the last end in front of the declaration. -/
theorem docBetween_eq_attached {docs : List Located} {ends : List Nat} {floor start : Nat}
    (known : floor = 0 ∨ floor ∈ ends) (below : floor ≤ start)
    (between : ∀ e ∈ ends, e ≤ floor ∨ start < e) :
    docBetween docs floor start = attached docs ends start := by
  have same (d : Located) : (decide (d.stop ≤ start) && decide (floor ≤ d.start)) =
      decide (d.stop ≤ start ∧ ∀ e ∈ ends, e ≤ start → e ≤ d.start) := by
    rw [← Bool.decide_and, decide_eq_decide]
    refine and_congr_right fun _ => ⟨fun above e member under => ?_, fun all => ?_⟩
    · rcases between e member with low | high <;> omega
    · rcases known with rfl | member
      · exact Nat.zero_le _
      · exact all floor member below
  rw [docBetween, attached]
  exact congrArg (docs.reverse.find? ·) (funext same)

/-- Where a list of constants ends that goes on at an offset, given the tokens from there on: behind
its last commas and its semicolon. -/
def constantsEnd (stop : Nat) : List Located → Nat
  | [] => stop
  | t :: ts =>
      if t.token = .symbol .comma then constantsEnd t.stop ts
      else if t.token = .symbol .semicolon then t.stop
      else stop

/-- Where a list of constants ends whose last constant, or the brace in front of it, ends at an
offset. -/
def constantsStop (tokens : List Located) (stop : Nat) : Nat :=
  constantsEnd stop (tokens.filter fun t => decide (stop ≤ t.start))

namespace Member

/-- The place of a field, a method or a constructor and its documentation. -/
def documented? : Member → Option (Span × Option String)
  | field decl => some (decl.span, decl.doc)
  | constructor decl | method decl => some (decl.span, decl.doc)
  | _ => none

/-- The place of a member in which there is no other. -/
def leaf? : Member → Option Span
  | nested _ _ => none
  | m => some m.span

/-- Where a member ends. Enum constants end together. -/
def end? : Member → Option Nat
  | constant _ => none
  | m => some m.span.stop

def constantStop? : Member → Option Nat
  | constant decl => some decl.span.stop
  | _ => none

end Member

/-- Where the list of constants of an enum ends, which begins behind an offset. -/
def constantsEnd? (tokens : List Located) (kind : ClassKind) (start : Nat) (members : List Member) :
    Option Nat :=
  if kind = .enum then
    some (constantsStop tokens ((members.filterMap Member.constantStop?).getLast?.getD start))
  else none

namespace ClassDecl

/-- A class and its fields, methods and constructors, each with its place and documentation. -/
def documented (c : ClassDecl) : List (Span × Option String) :=
  (c.span, c.doc) :: c.members.filterMap Member.documented?

/-- Where a class breaks off the documentation in front: at its brace, at its end, and where the
constants or a member in it ends. -/
def docEnds (tokens : List Located) (c : ClassDecl) : List Nat :=
  c.bodySpan.start :: c.span.stop ::
    ((constantsEnd? tokens c.kind (c.bodySpan.start + 1) c.members).toList ++
      c.members.filterMap Member.end?)

/-- The stretches of a class in which no declaration begins: its head, and members that are no
classes. -/
def closed (c : ClassDecl) : List Span :=
  ⟨c.span.start, c.bodySpan.start⟩ :: c.members.filterMap Member.leaf?

end ClassDecl

/-- What was read, as far as documentation goes: the declarations, the stretches in which none
begins, and where the documentation in front is broken off. -/
structure Marks where
  documented : List (Span × Option String)
  closed : List Span
  ends : List Nat

namespace Marks

instance : Append Marks :=
  ⟨fun m n => ⟨m.documented ++ n.documented, m.closed ++ n.closed, m.ends ++ n.ends⟩⟩

def none : Marks :=
  ⟨[], [], []⟩

def ofMembers (members : List Member) : Marks :=
  ⟨members.filterMap Member.documented?, members.filterMap Member.leaf?,
    members.filterMap Member.end?⟩

def ofClasses (tokens : List Located) (classes : List ClassDecl) : Marks :=
  ⟨classes.flatMap ClassDecl.documented, classes.flatMap ClassDecl.closed,
    classes.flatMap (ClassDecl.docEnds tokens)⟩

/-- The end of the list of constants. -/
def ofConstants (tokens : List Located) (kind : ClassKind) (start : Nat) (members : List Member) :
    Marks :=
  ⟨[], [], (constantsEnd? tokens kind start members).toList⟩

/-- The same marks in another order. -/
structure Same (m n : Marks) : Prop where
  documented : ∀ p, p ∈ m.documented ↔ p ∈ n.documented
  closed : ∀ s, s ∈ m.closed ↔ s ∈ n.closed
  ends : ∀ e, e ∈ m.ends ↔ e ∈ n.ends

variable {m n : Marks}

theorem mem_documented_append {p : Span × Option String} :
    p ∈ (m ++ n).documented ↔ p ∈ m.documented ∨ p ∈ n.documented :=
  List.mem_append

theorem mem_closed_append {s : Span} : s ∈ (m ++ n).closed ↔ s ∈ m.closed ∨ s ∈ n.closed :=
  List.mem_append

theorem mem_ends_append {e : Nat} : e ∈ (m ++ n).ends ↔ e ∈ m.ends ∨ e ∈ n.ends :=
  List.mem_append

theorem ofMembers_append (xs ys : List Member) :
    ofMembers (xs ++ ys) = ofMembers xs ++ ofMembers ys := by
  simp only [ofMembers, List.filterMap_append]
  rfl

theorem ofClasses_append (tokens : List Located) (xs ys : List ClassDecl) :
    ofClasses tokens (xs ++ ys) = ofClasses tokens xs ++ ofClasses tokens ys := by
  simp only [ofClasses, List.flatMap_append]
  rfl

theorem append_assoc (k m n : Marks) : k ++ m ++ n = k ++ (m ++ n) := by
  show Marks.mk (k.documented ++ m.documented ++ n.documented)
    (k.closed ++ m.closed ++ n.closed) (k.ends ++ m.ends ++ n.ends) = _
  rw [List.append_assoc, List.append_assoc, List.append_assoc]
  rfl

theorem append_nil (m : Marks) (tokens : List Located) : m ++ ofClasses tokens [] = m := by
  obtain ⟨documented, closed, ends⟩ := m
  show Marks.mk (documented ++ []) (closed ++ []) (ends ++ []) = _
  simp only [List.append_nil]

theorem same_swap {k l : Marks} : ((k ++ l) ++ (m ++ n)).Same ((k ++ m) ++ (l ++ n)) where
  documented := fun p => by
    simp only [mem_documented_append]
    exact or_or_or_comm
  closed := fun s => by
    simp only [mem_closed_append]
    exact or_or_or_comm
  ends := fun e => by
    simp only [mem_ends_append]
    exact or_or_or_comm

theorem same_nested {inner : ClassId} {span : Span} (ends : span.stop ∈ m.ends) :
    m.Same (ofMembers [.nested inner span] ++ m) where
  documented := fun p => Iff.rfl
  closed := fun s => Iff.rfl
  ends := fun e => by
    rw [mem_ends_append]
    refine ⟨.inr, fun member => member.elim (fun here => ?_) id⟩
    rwa [List.mem_singleton.mp here]

theorem same_class (tokens : List Located) (d : ClassDecl) (added : List ClassDecl) :
    (⟨[(d.span, d.doc)], [⟨d.span.start, d.bodySpan.start⟩], [d.bodySpan.start]⟩ ++
      (ofConstants tokens d.kind (d.bodySpan.start + 1) d.members ++
        (ofMembers d.members ++ ofClasses tokens added)) ++
      ⟨[], [], [d.span.stop]⟩ : Marks).Same (ofClasses tokens (added ++ [d])) := by
  rw [ofClasses_append]
  refine ⟨fun p => ?_, fun s => ?_, fun e => ?_⟩
  · simp only [mem_documented_append, ofConstants, ofMembers, ofClasses, ClassDecl.documented,
      List.flatMap_cons, List.flatMap_nil, List.append_nil, List.mem_cons, List.not_mem_nil]
    grind
  · simp only [mem_closed_append, ofConstants, ofMembers, ofClasses, ClassDecl.closed,
      List.flatMap_cons, List.flatMap_nil, List.append_nil, List.mem_cons, List.not_mem_nil]
    grind
  · simp only [mem_ends_append, ofConstants, ofMembers, ofClasses, ClassDecl.docEnds,
      List.flatMap_cons, List.flatMap_nil, List.append_nil, List.mem_cons, List.mem_append,
      List.not_mem_nil]
    grind

end Marks

/-- The cursor stands in the tokens behind all it took, and no documentation is broken off ahead. -/
structure Cursor.Stood (tokens : List Located) (c : Cursor) : Prop where
  order : InOrder tokens
  positive : ∀ t ∈ tokens, t.start < t.stop
  split : ∃ front, tokens = front ++ c.rest ∧ ∀ t ∈ front, t.stop ≤ c.lastStop
  later : ∀ t ∈ c.rest, c.lastStop ≤ t.start
  floor : c.docFloor ≤ c.lastStop

namespace Cursor.Stood

variable {tokens taken : List Located} {c c' : Cursor}

theorem among (here : c.Stood tokens) {t : Located} (member : t ∈ c.rest) : t ∈ tokens := by
  obtain ⟨front, whole, _⟩ := here.split
  exact whole ▸ List.mem_append_right _ member

/-- What is ahead is what begins behind the token consumed last. -/
theorem filter_eq (here : c.Stood tokens) :
    (tokens.filter fun t => decide (c.lastStop ≤ t.start)) = c.rest := by
  obtain ⟨front, whole, before⟩ := here.split
  rw [whole]
  refine Located.filter_append_of_starts (fun t member => ?_) here.later
  have some := here.positive t (whole ▸ List.mem_append_left _ member)
  have low := before t member
  omega

theorem constantsStop_eq (here : c.Stood tokens) :
    constantsStop tokens c.lastStop = constantsEnd c.lastStop c.rest := by
  rw [constantsStop, here.filter_eq]

theorem later_of_moves (here : c.Stood tokens) (moves : c.Moves taken c') :
    c.lastStop ≤ c'.lastStop := by
  rcases List.eq_nil_or_concat taken with rfl | ⟨init, last, rfl⟩
  · exact Nat.le_of_eq moves.lastStop.symm
  · have ahead : last ∈ c.rest := by
      rw [moves.rest, List.concat_eq_append]
      simp
    have first := here.later last ahead
    have some := here.positive last (here.among ahead)
    have ends : c'.lastStop = last.stop := by
      rw [moves.lastStop, List.concat_eq_append, List.getLast?_concat]
      rfl
    omega

theorem moves (here : c.Stood tokens) (moves : c.Moves taken c')
    (floor : c'.docFloor ≤ c'.lastStop) : c'.Stood tokens := by
  obtain ⟨front, whole, before⟩ := here.split
  have rest := moves.rest
  rcases List.eq_nil_or_concat taken with rfl | ⟨init, last, rfl⟩
  · have same : c'.lastStop = c.lastStop := moves.lastStop
    rw [List.nil_append] at rest
    refine ⟨here.order, here.positive, ⟨front, rest ▸ whole, fun t member => ?_⟩,
      fun t member => ?_, floor⟩
    · exact same ▸ before t member
    · exact same ▸ here.later t (rest ▸ member)
  · have ends : c'.lastStop = last.stop := by
      rw [moves.lastStop, List.concat_eq_append, List.getLast?_concat]
      rfl
    rw [List.concat_eq_append, List.append_assoc] at rest
    have order : InOrder c.rest := (List.pairwise_append.mp (whole ▸ here.order)).2.1
    have ahead : last ∈ c.rest := rest ▸ by simp
    have some := here.positive last (here.among ahead)
    have first := here.later last ahead
    rw [rest] at order
    have parts := List.pairwise_append.mp order
    refine ⟨here.order, here.positive, ⟨front ++ init ++ [last], ?_, fun t member => ?_⟩,
      fun t member => ?_, floor⟩
    · rw [whole, rest]
      simp
    · rw [ends]
      rcases List.mem_append.mp member with behind | here'
      · rcases List.mem_append.mp behind with old | new
        · have low := before t old
          omega
        · have low := parts.2.2 t new last List.mem_cons_self
          omega
      · exact Nat.le_of_eq (by rw [List.mem_singleton.mp here'])
    · rw [ends]
      exact (List.pairwise_cons.mp parts.2.1).1 t member

theorem begins (here : c.Stood tokens) (moves : c.Moves taken c') (some : taken ≠ [])
    (otherwise : Nat) :
    c.lastStop ≤ (c.rest.head?.map (·.start)).getD otherwise ∧
      (c.rest.head?.map (·.start)).getD otherwise < c'.lastStop := by
  obtain ⟨t, ts, rfl⟩ := List.exists_cons_of_ne_nil some
  have rest : c.rest = t :: (ts ++ c'.rest) := moves.rest
  have ahead : t ∈ c.rest := rest ▸ List.mem_cons_self
  have first := here.later t ahead
  have positive := here.positive t (here.among ahead)
  let mid : Cursor := { c with rest := ts ++ c'.rest, lastStop := t.stop }
  have one : c.Moves [t] mid := ⟨rest, rfl, List.prefix_rfl⟩
  have stood : mid.Stood tokens := here.moves one (by
    have under := here.floor
    show c.docFloor ≤ t.stop
    omega)
  have others : mid.Moves ts c' := by
    refine ⟨rfl, ?_, moves.classes⟩
    rw [moves.lastStop, List.getLast?_cons]
    cases ts.getLast? <;> rfl
  have later : t.stop ≤ c'.lastStop := stood.later_of_moves others
  rw [rest]
  exact ⟨first, Nat.lt_of_lt_of_le positive later⟩

theorem run {α : Type} {src : Source} {p : Parser α} [Onward p] [KeepsDocs p] {a : α}
    (here : c.Stood tokens) (run : p.on src c = .ok (a, c')) :
    c'.Stood tokens ∧ c.lastStop ≤ c'.lastStop ∧ c'.docFloor = c.docFloor := by
  obtain ⟨taken, moves⟩ := Onward.onward run
  have later := here.later_of_moves moves
  have floor := KeepsDocs.floor run
  exact ⟨here.moves moves (floor ▸ Nat.le_trans here.floor later), later, floor⟩

end Cursor.Stood

/-- From one cursor to a later one, documentation goes to the declarations read between them. -/
structure Cursor.Documents (src : Source) (tokens : List Located) (c : Cursor) (marks : Marks)
    (c' : Cursor) : Prop where
  stood : c'.Stood tokens
  later : c.lastStop ≤ c'.lastStop
  raised : c.docFloor ≤ c'.docFloor
  floor : c'.docFloor = c.docFloor ∨ c'.docFloor ∈ marks.ends
  ends : ∀ e ∈ marks.ends, c.lastStop ≤ e ∧ e ≤ c'.docFloor
  closed : ∀ s ∈ marks.closed, c.lastStop ≤ s.start ∧ s.start < s.stop ∧ s.stop ≤ c'.docFloor
  starts : ∀ p ∈ marks.documented, ∃ s ∈ marks.closed, s.start = p.1.start
  /-- A declaration takes the last comment behind all that was broken off in front of it. -/
  takes : ∀ p ∈ marks.documented, ∃ floor,
    p.2 = (docBetween src.docs floor p.1.start).map (·.token.text) ∧
    (floor = c.docFloor ∨ floor ∈ marks.ends) ∧ c.docFloor ≤ floor ∧ floor ≤ p.1.start ∧
    ∀ e ∈ marks.ends, e ≤ floor ∨ p.1.start < e
  /-- Behind a stretch without declarations, documentation is broken off. -/
  apart : ∀ s ∈ marks.closed, ∀ p ∈ marks.documented,
    p.1.start ≤ s.start ∨ ∃ e ∈ marks.ends, s.stop ≤ e ∧ e ≤ p.1.start
  once : ∀ p ∈ marks.documented, ∀ q ∈ marks.documented, p.1.start = q.1.start → p = q

namespace Cursor.Documents

variable {src : Source} {tokens : List Located} {c mid c' : Cursor} {m n : Marks}

theorem congr (same : m.Same n) (documents : c.Documents src tokens m c') :
    c.Documents src tokens n c' where
  stood := documents.stood
  later := documents.later
  raised := documents.raised
  floor := documents.floor.imp_right (same.ends _).mp
  ends := fun e member => documents.ends e ((same.ends e).mpr member)
  closed := fun s member => documents.closed s ((same.closed s).mpr member)
  starts := fun p member => by
    obtain ⟨s, inside, begins⟩ := documents.starts p ((same.documented p).mpr member)
    exact ⟨s, (same.closed s).mp inside, begins⟩
  takes := fun p member => by
    obtain ⟨floor, doc, ends, above, below, between⟩ :=
      documents.takes p ((same.documented p).mpr member)
    exact ⟨floor, doc, ends.imp_right (same.ends _).mp, above, below,
      fun e inside => between e ((same.ends e).mpr inside)⟩
  apart := fun s inside p member => by
    rcases documents.apart s ((same.closed s).mpr inside) p ((same.documented p).mpr member) with
      before | ⟨e, ends, between⟩
    · exact .inl before
    · exact .inr ⟨e, (same.ends e).mp ends, between⟩
  once := fun p member q member' => documents.once p ((same.documented p).mpr member) q
    ((same.documented q).mpr member')

theorem within (documents : c.Documents src tokens m c') {p : Span × Option String}
    (member : p ∈ m.documented) : c.lastStop ≤ p.1.start ∧ p.1.start < c'.docFloor := by
  obtain ⟨s, inside, begins⟩ := documents.starts p member
  have closed := documents.closed s inside
  omega

theorem trans (here : c.Stood tokens) (first : c.Documents src tokens m mid)
    (second : mid.Documents src tokens n c') : c.Documents src tokens (m ++ n) c' where
  stood := second.stood
  later := Nat.le_trans first.later second.later
  raised := Nat.le_trans first.raised second.raised
  floor := by
    rcases second.floor with same | ends
    · rw [same]
      exact first.floor.imp_right fun ends => Marks.mem_ends_append.mpr (.inl ends)
    · exact .inr (Marks.mem_ends_append.mpr (.inr ends))
  ends := fun e member => by
    have later := first.later
    have raised := second.raised
    rcases Marks.mem_ends_append.mp member with old | new
    · have known := first.ends e old
      omega
    · have known := second.ends e new
      omega
  closed := fun s member => by
    have later := first.later
    have raised := second.raised
    rcases Marks.mem_closed_append.mp member with old | new
    · have known := first.closed s old
      omega
    · have known := second.closed s new
      omega
  starts := fun p member => by
    rcases Marks.mem_documented_append.mp member with old | new
    · obtain ⟨s, inside, begins⟩ := first.starts p old
      exact ⟨s, Marks.mem_closed_append.mpr (.inl inside), begins⟩
    · obtain ⟨s, inside, begins⟩ := second.starts p new
      exact ⟨s, Marks.mem_closed_append.mpr (.inr inside), begins⟩
  takes := fun p member => by
    have below := first.stood.floor
    rcases Marks.mem_documented_append.mp member with old | new
    · obtain ⟨floor, doc, known, above, low, between⟩ := first.takes p old
      refine ⟨floor, doc, known.imp_right fun ends => Marks.mem_ends_append.mpr (.inl ends), above,
        low, fun e inside => ?_⟩
      rcases Marks.mem_ends_append.mp inside with front | behind
      · exact between e front
      · have begins := first.within old
        have ends := second.ends e behind
        omega
    · obtain ⟨floor, doc, known, above, low, between⟩ := second.takes p new
      refine ⟨floor, doc, ?_, Nat.le_trans first.raised above, low, fun e inside => ?_⟩
      · rcases known with rfl | ends
        · exact first.floor.imp_right fun ends => Marks.mem_ends_append.mpr (.inl ends)
        · exact .inr (Marks.mem_ends_append.mpr (.inr ends))
      · rcases Marks.mem_ends_append.mp inside with front | behind
        · have ends := first.ends e front
          omega
        · exact between e behind
  apart := fun s inside p member => by
    have below := first.stood.floor
    rcases Marks.mem_closed_append.mp inside with front | behind
    · have closed := first.closed s front
      rcases Marks.mem_documented_append.mp member with old | new
      · refine (first.apart s front p old).imp_right fun ⟨e, ends, between⟩ => ?_
        exact ⟨e, Marks.mem_ends_append.mpr (.inl ends), between⟩
      · -- The stretch lies behind the floor it was read from, so an end was set behind it.
        have begins := second.within new
        have under := here.floor
        rcases first.floor with same | ends
        · omega
        · exact .inr ⟨mid.docFloor, Marks.mem_ends_append.mpr (.inl ends), by omega⟩
    · have closed := second.closed s behind
      rcases Marks.mem_documented_append.mp member with old | new
      · have begins := first.within old
        exact .inl (by omega)
      · refine (second.apart s behind p new).imp_right fun ⟨e, ends, between⟩ => ?_
        exact ⟨e, Marks.mem_ends_append.mpr (.inr ends), between⟩
  once := fun p member q member' same => by
    have below := first.stood.floor
    rcases Marks.mem_documented_append.mp member with old | new
    · rcases Marks.mem_documented_append.mp member' with old' | new'
      · exact first.once p old q old' same
      · have low := first.within old
        have high := second.within new'
        omega
    · rcases Marks.mem_documented_append.mp member' with old' | new'
      · have low := first.within old'
        have high := second.within new
        omega
      · exact second.once p new q new' same

theorem quiet {α : Type} {p : Parser α} [Onward p] [KeepsDocs p] {a : α} (here : c.Stood tokens)
    (run : p.on src c = .ok (a, c')) : c.Documents src tokens .none c' := by
  obtain ⟨stood, later, floor⟩ := here.run run
  exact ⟨stood, later, Nat.le_of_eq floor.symm, .inl floor, nofun, nofun, nofun, nofun, nofun,
    nofun⟩

/-- Documentation is broken off once. A declaration that is documented on the way begins in front of
all else. -/
theorem single {start : Nat} (here : c.Stood tokens) (stood : c'.Stood tokens)
    (begins : c.lastStop ≤ start) (later : c.lastStop ≤ c'.docFloor)
    (ends : ∀ e, e ∈ m.ends ↔ e = c'.docFloor)
    (closed : ∀ s ∈ m.closed, start ≤ s.start ∧ s.start < s.stop ∧ s.stop ≤ c'.docFloor)
    (documented : ∀ p ∈ m.documented, p.1.start = start ∧ p.2 = docAt src c start ∧
      ∃ s ∈ m.closed, s.start = start)
    (once : ∀ p ∈ m.documented, ∀ q ∈ m.documented, p = q) : c.Documents src tokens m c' where
  stood := stood
  later := Nat.le_trans later stood.floor
  raised := Nat.le_trans here.floor later
  floor := .inr ((ends _).mpr rfl)
  ends := fun e member => by
    rw [(ends e).mp member]
    exact ⟨later, Nat.le_refl _⟩
  closed := fun s member => ⟨Nat.le_trans begins (closed s member).1, (closed s member).2⟩
  starts := fun p member => by
    obtain ⟨first, _, s, inside, begins⟩ := documented p member
    exact ⟨s, inside, begins.trans first.symm⟩
  takes := fun p member => by
    obtain ⟨first, doc, s, inside, begins'⟩ := documented p member
    have under := here.floor
    have between := closed s inside
    refine ⟨c.docFloor, ?_, .inl rfl, Nat.le_refl _, by omega, fun e member' => .inr ?_⟩
    · rw [doc, first]
      rfl
    · rw [(ends e).mp member']
      omega
  apart := fun s inside p member => .inl (by
    rw [(documented p member).1]
    exact (closed s inside).1)
  once := fun p member q member' _ => once p member q member'

variable {p q : Span × Option String} {d : Located}

theorem attached (documents : c.Documents src tokens m c') (floor : c.docFloor = 0)
    (member : p ∈ m.documented) :
    p.2 = (attached src.docs m.ends p.1.start).map (·.token.text) := by
  obtain ⟨floor', doc, known, _, below, between⟩ := documents.takes p member
  rw [floor] at known
  rw [doc, docBetween_eq_attached known below between]

/-- A comment of a declaration begins behind each stretch without declarations that begins in front
of the declaration. -/
theorem behind_closed (documents : c.Documents src tokens m c') (member : p ∈ m.documented)
    (found : CreatorSynth.attached src.docs m.ends p.1.start = some d) {s : Span}
    (inside : s ∈ m.closed) : p.1.start ≤ s.start ∨ s.stop ≤ d.start := by
  refine (documents.apart s inside p member).imp_right fun ⟨e, ends, above, below⟩ => ?_
  exact Nat.le_trans above ((attached_eq_some found).2.2 e ends below)

/-- Two declarations do not have the same comment. -/
theorem eq_of_attached (documents : c.Documents src tokens m c')
    (positive : ∀ d ∈ src.docs, d.start < d.stop) (member : p ∈ m.documented)
    (member' : q ∈ m.documented)
    (found : CreatorSynth.attached src.docs m.ends p.1.start = some d)
    (found' : CreatorSynth.attached src.docs m.ends q.1.start = some d) : p = q := by
  obtain ⟨inside, stop, _⟩ := attached_eq_some found
  obtain ⟨_, stop', _⟩ := attached_eq_some found'
  have some := positive d inside
  obtain ⟨s, closed, begins⟩ := documents.starts p member
  obtain ⟨s', closed', begins'⟩ := documents.starts q member'
  have extent := (documents.closed s closed).2.1
  have extent' := (documents.closed s' closed').2.1
  have behind := documents.behind_closed member' found' closed
  have behind' := documents.behind_closed member found closed'
  exact documents.once p member q member' (by omega)

end Cursor.Documents

end CreatorSynth
