import Mathlib.Data.List.Pairwise
import CreatorSynth.Proofs.Parser.Sections

/-! The spans of a unit. Classes, members and imports stand one behind the other where their spans
say, and the braces of a class belong together wherever the brackets of the source nest. -/
namespace CreatorSynth
open Text Located CreatorSynth.Parser

namespace Sections

variable {src : Source} {classes : List ClassDecl} {ts : List Located} {items : List Item}

theorem covers (sections : Sections src classes ts items) (order : InOrder ts)
    (some : ∀ t ∈ ts, t.start < t.stop) :
    ∀ item ∈ items, ∀ span, item.Covers classes span →
      ∃ t ∈ ts, ∃ u ∈ ts, span = ⟨t.start, u.stop⟩ := by
  induction sections with
  | nil => nofun
  | @cons taken ts item items first others ih =>
    have parts := List.pairwise_append.mp order
    intro item' member span covers
    cases member with
    | head =>
      obtain ⟨t, t_inside, u, u_inside, known⟩ := first.exists_covered covers parts.1
        fun t inside => some t (List.mem_append_left _ inside)
      exact ⟨t, List.mem_append_left _ t_inside, u, List.mem_append_left _ u_inside, known⟩
    | tail _ member =>
      obtain ⟨t, t_inside, u, u_inside, known⟩ := ih parts.2.1
        (fun t inside => some t (List.mem_append_right _ inside)) item' member span covers
      exact ⟨t, List.mem_append_right _ t_inside, u, List.mem_append_right _ u_inside, known⟩

theorem stands (sections : Sections src classes ts items) :
    ∀ item ∈ items, ∃ taken behind, item.Stands src classes taken behind := by
  induction sections with
  | nil => nofun
  | cons first _ ih =>
    intro item member
    cases member with
    | head => exact ⟨_, _, first⟩
    | tail _ member => exact ih item member

theorem pairwise (sections : Sections src classes ts items) (order : InOrder ts)
    (some : ∀ t ∈ ts, t.start < t.stop) :
    items.Pairwise fun item item' => ∀ span span', item.Covers classes span →
      item'.Covers classes span' → span.stop ≤ span'.start := by
  induction sections with
  | nil => exact .nil
  | @cons taken ts item items first others ih =>
    have parts := List.pairwise_append.mp order
    have later (t : Located) (inside : t ∈ ts) := some t (List.mem_append_right _ inside)
    refine List.pairwise_cons.mpr ⟨fun item' member span span' covers covers' => ?_,
      ih parts.2.1 later⟩
    obtain ⟨_, _, u, u_inside, rfl⟩ := first.exists_covered covers parts.1
      fun t inside => some t (List.mem_append_left _ inside)
    obtain ⟨t, t_inside, _, _, rfl⟩ := others.covers parts.2.1 later item' member span' covers'
    exact parts.2.2 u u_inside t t_inside

end Sections

theorem either_of_pairwise {α : Type} {R : α → α → Prop} {xs : List α} (pairwise : xs.Pairwise R)
    {a b : α} (here : a ∈ xs) (there : b ∈ xs) (other : a ≠ b) : R a b ∨ R b a := by
  have symmetric : Std.Symm fun x y => R x y ∨ R y x := ⟨fun _ _ => Or.symm⟩
  exact (pairwise.imp fun rel => Or.inl rel : xs.Pairwise fun x y => R x y ∨ R y x).forall here
    there other

/-- How a class of a unit stands in the text and the tokens of the source. -/
structure ClassDecl.Placed (text : List Char) (tokens : List Located) (u : CompilationUnit)
    (c : ClassDecl) : Prop where
  opening : slice? text c.bodySpan.start (c.bodySpan.start + 1) = some ['{']
  closing : slice? text (c.bodySpan.stop - 1) c.bodySpan.stop = some ['}']
  /-- What stands between the braces nests if everything does. -/
  matching : ∃ before opening inner closing after,
    tokens = before ++ opening :: inner ++ closing :: after ∧
    opening.token = .symbol .lbrace ∧ closing.token = .symbol .rbrace ∧
    c.bodySpan = ⟨opening.start, closing.stop⟩ ∧ (Nested tokens → Nested inner)
  inside : c.span.start ≤ c.bodySpan.start ∧ c.bodySpan.start < c.bodySpan.stop ∧
    c.bodySpan.stop = c.span.stop
  members : ∀ m ∈ c.members, c.bodySpan.start < m.span.start ∧ m.span.start < m.span.stop ∧
    m.span.stop < c.bodySpan.stop
  order : c.members.Pairwise fun m m' => m.span.stop ≤ m'.span.start ∨ m.Beside m'
  nested : ∀ id span, .nested id span ∈ c.members → ∃ d, u.class? id = some d ∧ d.span = span

/-- How a unit stands in the text and the tokens of the source. -/
structure CompilationUnit.Placed (src : Source) (tokens : List Located) (u : CompilationUnit) :
    Prop where
  classes : ∀ c ∈ u.classes, c.Placed src.text tokens u
  imports : u.imports.Pairwise fun i j => i.span.stop ≤ j.span.start
  topLevel : ∀ id ∈ u.topLevel, ∃ c, u.class? id = some c
  order : u.topLevel.Pairwise fun id id' => ∀ c d, u.class? id = some c → u.class? id' = some d →
    c.span.stop ≤ d.span.start
  apart : ∀ i ∈ u.imports, ∀ id ∈ u.topLevel, ∀ c, u.class? id = some c →
    i.span.stop ≤ c.span.start ∨ c.span.stop ≤ i.span.start
  /-- The items of the source in order, each with its own tokens. -/
  header : ∃ items, Sections src u.classes tokens items ∧ u.MadeOf items

theorem ClassDecl.placed_of_stands {text : List Char} {tokens : List Located} {u : CompilationUnit}
    {c : ClassDecl} (stands : c.Stands u.classes tokens) (order : InOrder tokens)
    (each : ∀ t ∈ tokens, t.StandsIn text) : c.Placed text tokens u := by
  obtain ⟨before, head, opening, inner, closing, after, rfl, opens, closes, span, body, laid,
    nested⟩ := stands.placed
  have parts := (List.pairwise_append.mp (List.pairwise_append.mp order).1).2.1
  have braces := (List.pairwise_append.mp parts).2.1
  have inside : ∀ t ∈ head ++ (opening :: inner ++ [closing]), t.StandsIn text := fun t member =>
    each t (List.mem_append_left _ (List.mem_append_right _ member))
  have positive : ∀ t ∈ head ++ (opening :: inner ++ [closing]), t.start < t.stop :=
    fun t member => (inside t member).some
  have between : ∀ t ∈ opening :: inner ++ [closing], t.start < t.stop := fun t member =>
    positive t (List.mem_append_right _ member)
  have first := inside opening (by simp)
  have last := inside closing (by simp)
  have first_stop : opening.stop = opening.start + 1 := by
    rw [first.stop, opens]
    rfl
  have last_stop : closing.stop = closing.start + 1 := by
    rw [last.stop, closes]
    rfl
  obtain ⟨body_eq, forward⟩ := @Span.over_eq (opening :: inner ++ [closing]) _ _ rfl
    List.getLast?_concat braces between
  rw [body_eq] at body
  have shape := List.pairwise_cons.mp braces
  have front : ∀ t ∈ inner, opening.stop ≤ t.start := fun t member =>
    shape.1 t (List.mem_append_left _ member)
  have back : ∀ t ∈ inner, t.stop ≤ closing.start := fun t member =>
    (List.pairwise_append.mp shape.2).2.2 t member closing List.mem_cons_self
  have inner_order := (List.pairwise_append.mp shape.2).1
  have inner_positive : ∀ t ∈ inner, t.start < t.stop := fun t member =>
    between t (List.mem_cons_of_mem _ (List.mem_append_left _ member))
  refine ⟨?_, ?_, ⟨before ++ head, opening, inner, closing, after, ?_, opens, closes, body, nested⟩,
    ?_, fun m member => ?_, laid.pairwise inner_order inner_positive, fun id span member => ?_⟩
  · rw [body, ← first_stop, first.slice, opens]
    rfl
  · rw [body, last_stop, Nat.add_sub_cancel, ← last_stop, last.slice, closes]
    rfl
  · simp only [List.append_assoc, List.cons_append, List.nil_append]
  · have ends : (head ++ (opening :: inner ++ [closing])).getLast? = some closing := by
      rw [← List.append_assoc, List.getLast?_concat]
    rw [span, body]
    cases head with
    | nil =>
      rw [(Span.over_eq rfl ends parts positive).1]
      exact ⟨Nat.le_refl _, forward, rfl⟩
    | cons t head =>
      rw [(Span.over_eq rfl ends parts positive).1]
      have apart := (List.pairwise_append.mp parts).2.2 t List.mem_cons_self opening
        List.mem_cons_self
      have some := positive t List.mem_cons_self
      exact ⟨Nat.le_trans (Nat.le_of_lt some) apart, forward, rfl⟩
  · obtain ⟨t, t_inside, v, v_inside, same, some⟩ := laid.covers inner_order inner_positive m member
    have low := front t t_inside
    have high := back v v_inside
    rw [body, same]
    show opening.start < t.start ∧ t.start < v.stop ∧ v.stop < closing.stop
    omega
  · exact laid.refers _ member id span rfl

/-- The tokens of a source that are no documentation. -/
def codeTokens (located : List Located) : List Located :=
  located.filter (!·.token.isDoc)

theorem CompilationUnit.placed_of_unit {text : String} {dialect : Dialect} {located : List Located}
    {u : CompilationUnit} {c' : Cursor} (tokens : tokenize text = .ok located)
    (run : Parser.unit.on (sourceOf text dialect located) (start located) = .ok (u, c')) :
    u.Placed (sourceOf text dialect located) (codeTokens located) := by
  obtain ⟨all_order, stand⟩ := tokenize_places tokens
  have order : InOrder (codeTokens located) := all_order.filter _
  have each : ∀ t ∈ codeTokens located, t.StandsIn text.toList := fun t member =>
    stand t (List.mem_filter.mp member).1
  have positive : ∀ t ∈ codeTokens located, t.start < t.stop := fun t member =>
    (each t member).some
  obtain ⟨items, reads, sections, whole⟩ := unit_reads (c := Parser.start located) run
  have classes : u.classes = c'.classes := by rw [whole]
  have made : u.MadeOf items := whole ▸ CompilationUnit.madeOf_foldl items c'.classes
  rw [← classes] at sections
  have pairwise := sections.pairwise order positive
  refine ⟨fun c member => ?_, ?_, fun id member => ?_, ?_, ?_, items, sections, made⟩
  · rw [classes] at member
    rcases reads.classes c member with old | stands
    · cases old
    · rw [← classes] at stands
      exact ClassDecl.placed_of_stands stands order each
  · rw [made.imports, List.pairwise_filterMap]
    refine pairwise.imp fun apart => ?_
    intro i same j same'
    exact apart i.span j.span (Item.covers_of_import same) (Item.covers_of_import same')
  · rw [made.topLevel] at member
    obtain ⟨item, inside, same⟩ := List.mem_filterMap.mp member
    obtain ⟨_, _, stands⟩ := sections.stands item inside
    cases stands with
    | declared _ _ _ _ known => exact ⟨_, Option.some.inj same ▸ known⟩
    | _ => cases same
  · rw [made.topLevel, List.pairwise_filterMap]
    refine pairwise.imp fun apart => ?_
    intro id same id' same' c d known known'
    exact apart c.span d.span (Item.covers_of_declared same known)
      (Item.covers_of_declared same' known')
  · intro i i_member id id_member c known
    rw [made.imports] at i_member
    rw [made.topLevel] at id_member
    obtain ⟨item, inside, same⟩ := List.mem_filterMap.mp i_member
    obtain ⟨item', inside', same'⟩ := List.mem_filterMap.mp id_member
    have other : item ≠ item' := by
      rintro rfl
      cases item <;> cases same
      cases same'
    have covers : item.Covers u.classes i.span := Item.covers_of_import same
    have covers' : item'.Covers u.classes c.span := Item.covers_of_declared same' known
    exact (either_of_pairwise pairwise inside inside' other).imp
      (fun before => before _ _ covers covers') fun before => before _ _ covers' covers

/-- Every source that is read has its classes, members and imports where their spans say. -/
theorem parseUnit_placed {text : String} {dialect : Dialect} {u : CompilationUnit}
    (read : parseUnit text dialect = .ok u) :
    ∃ located, tokenize text = .ok located ∧
      u.Placed (sourceOf text dialect located) (codeTokens located) := by
  obtain ⟨located, c', tokens, run⟩ := parseUnit_eq_ok.mp read
  exact ⟨located, tokens, CompilationUnit.placed_of_unit tokens run⟩

/-- A source with a class in another one and two fields in one declaration. -/
def twoClasses : String :=
  "import p.Q; class A \x7b int x, y; class B \x7b\x7d \x7d"

def twoClassesUnit : CompilationUnit :=
  let field (name : String) : Member :=
    .field ⟨.empty, .simple "int", name, none, none, ⟨22, 31⟩⟩
  ⟨none, [⟨"p.Q", false, false, ⟨0, 11⟩⟩], 11,
    [⟨.ordinary, "B", .empty, [], none, [], [], [], none, ⟨40, 42⟩, ⟨32, 42⟩⟩,
     ⟨.ordinary, "A", .empty, [], none, [], [], [field "x", field "y", .nested 0 ⟨32, 42⟩], none,
      ⟨20, 44⟩, ⟨12, 44⟩⟩], [1]⟩

theorem twoClasses_placed : parseUnit twoClasses .java = .ok twoClassesUnit ∧
    ∃ located, tokenize twoClasses = .ok located ∧ Nested (codeTokens located) ∧
      twoClassesUnit.Placed (sourceOf twoClasses .java located) (codeTokens located) := by
  have read : parseUnit twoClasses .java = .ok twoClassesUnit :=
    eq_ok_of_toOption (by decide +kernel)
  obtain ⟨located, tokens, placed⟩ := parseUnit_placed read
  have nested : ((tokenize twoClasses).toOption.map fun found =>
      decide (Nested (codeTokens found))) = some true := by decide +kernel
  rw [tokens] at nested
  exact ⟨read, located, tokens, of_decide_eq_true (Option.some.inj nested), placed⟩

/-- The arguments of the annotation hold a closing brace. -/
def strayBrace : String :=
  "class A \x7b @B(\x7d) int x; \x7d"

def strayBraceClass : ClassDecl :=
  ⟨.ordinary, "A", .empty, [], none, [], [],
    [.field ⟨⟨[], [⟨"B", some "\x7d", ⟨10, 15⟩⟩]⟩, .simple "int", "x", none, none, ⟨10, 22⟩⟩], none,
    ⟨8, 24⟩, ⟨0, 24⟩⟩

/-- The tokens between the braces of the class. -/
def strayBraceBody : List Located :=
  [⟨.symbol .atSign, 10, 11⟩, ⟨.name "B", 11, 12⟩, ⟨.symbol .lparen, 12, 13⟩,
   ⟨.symbol .rbrace, 13, 14⟩, ⟨.symbol .rparen, 14, 15⟩, ⟨.name "int", 16, 19⟩,
   ⟨.name "x", 20, 21⟩, ⟨.symbol .semicolon, 21, 22⟩]

/-- A brace in the arguments of an annotation is passed over. The brace that matches the first one
of the class is this one, where the body of the class ends at the last one. -/
theorem strayBrace_unmatched :
    parseUnit strayBrace .java = .ok ⟨none, [], 0, [strayBraceClass], [0]⟩ ∧
    tokenize strayBrace = .ok (⟨.keyword .classWord, 0, 5⟩ :: ⟨.name "A", 6, 7⟩ ::
      ⟨.symbol .lbrace, 8, 9⟩ :: strayBraceBody ++ [⟨.symbol .rbrace, 23, 24⟩]) ∧
    strayBraceClass.bodySpan = ⟨8, 24⟩ ∧ ¬ Nested strayBraceBody ∧
    ∃ rest, closeGroup .lbrace .rbrace 0 (strayBraceBody ++ [⟨.symbol .rbrace, 23, 24⟩]) =
      some (⟨.symbol .rbrace, 13, 14⟩, rest) :=
  ⟨eq_ok_of_toOption (by decide +kernel), eq_ok_of_toOption (by decide +kernel), rfl,
    by decide, _, rfl⟩

end CreatorSynth
