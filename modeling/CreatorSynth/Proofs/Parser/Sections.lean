import CreatorSynth.Proofs.Parser.Placing

/-! The items of a source and the tokens each of them is read from. A package declaration
or an import is modifiers, a keyword, a dotted name and a semicolon, so its tokens tell where it
ends. -/
namespace CreatorSynth
open Text Located CreatorSynth.Parser

/-- The name that a token stands for. -/
def Token.word? : Token → Option String
  | .name text => some text
  | .keyword .recordWord => some Keyword.recordWord.text
  | _ => none

/-- Names with dots between them. -/
inductive Dotted : List Token → List String → Prop
  | one {t : Token} {name : String} (word : t.word? = some name) : Dotted [t] [name]
  | cons {t : Token} {ts : List Token} {name : String} {names : List String}
      (word : t.word? = some name) (more : Dotted ts names) :
      Dotted (t :: .symbol .dot :: ts) (name :: names)

/-- The tokens of a dotted name. -/
def Spells (name : String) (ts : List Token) : Prop :=
  ∃ names, Dotted ts names ∧ name = joinSegments names

/-- The tokens between the keyword of an import and its semicolon. -/
structure Import.Spelled (decl : Import) (ts : List Token) : Prop where
  shape : ∃ path, Spells decl.path path ∧ ts = (if decl.isStatic then [.name "static"] else []) ++
    path ++ (if decl.onDemand then [.symbol .dot, .operator '*'] else [])
  /-- A word `static` in front is never the first name. -/
  first : decl.isStatic = false → ts.head? ≠ some (.name "static")

/-- The arguments of an annotation, or none. -/
inductive Arguments : List Located → Prop
  | none : Arguments []
  | group {opening closing : Located} {inner : List Located}
      (opens : opening.token = .symbol .lparen)
      (closes : closeGroup .lparen .rparen 0 (inner ++ [closing]) = some (closing, [])) :
      Arguments (opening :: (inner ++ [closing]))

/-- Modifier words and annotations in any order. -/
inductive Modifying : List Located → Prop
  | nil : Modifying []
  | word {t : Located} {ts : List Located} {name : String} (token : t.token = .name name)
      (keyword : isModifierKeyword name = true) (more : Modifying ts) : Modifying (t :: ts)
  | annotated {sign : Located} {name args ts : List Located} {names : List String}
      (begins : sign.token = .symbol .atSign) (named : Dotted (name.map (·.token)) names)
      (given : Arguments args) (more : Modifying ts) :
      Modifying (sign :: (name ++ args) ++ ts)

/-- A semicolon, or nothing where none follows. -/
inductive Terminates (behind : List Located) : List Located → Prop
  | semicolon {t : Located} (token : t.token = .symbol .semicolon) : Terminates behind [t]
  | omitted (none : behind.head?.map (·.token) ≠ some (.symbol .semicolon)) : Terminates behind []

/-- A declaration behind its modifiers: the keyword, what is declared, and the end. -/
inductive Announces (word : Keyword) (declared : List Token → Prop) (behind : List Located) :
    List Located → Prop
  | intro {t : Located} {path semicolon : List Located} (keyword : t.token = .keyword word)
      (named : declared (path.map (·.token))) (ends : Terminates behind semicolon) :
      Announces word declared behind (t :: (path ++ semicolon))

theorem Announces.ne_nil {word : Keyword} {declared : List Token → Prop}
    {behind tail : List Located} (announces : Announces word declared behind tail)
    (words : List Located) : words ++ tail ≠ [] := by
  cases announces
  simp

/-- The class is what its parser reads from the tokens, and nothing behind them is taken. -/
def ClassDecl.Takes (src : Source) (taken behind : List Located) (id : ClassId) (d : ClassDecl) :
    Prop :=
  ∃ modifiers start doc c c', (classDecl modifiers start doc).on src c = .ok (id, c') ∧
    c.rest = taken ++ behind ∧ c'.rest = behind ∧ c'.classes[id]? = some d

namespace Parser.Item

def import? : Item → Option Import
  | imported decl _ => some decl
  | _ => none

def declared? : Item → Option ClassId
  | declared id => some id
  | _ => none

def package? : Item → Option String
  | package name _ => some name
  | _ => none

/-- Where a package declaration or an import ends. -/
def headerStop? : Item → Option Nat
  | package _ stop | imported _ stop => some stop
  | _ => none

/-- How an item stands in the tokens it is read from, in front of those that follow. -/
inductive Stands (src : Source) (classes : List ClassDecl) (taken behind : List Located) :
    Item → Prop
  | blank (semicolon : taken.map (·.token) = [.symbol .semicolon]) :
      Stands src classes taken behind blank
  | package {words tail : List Located} {name : String} {stop : Nat}
      (split : taken = words ++ tail) (modifiers : Modifying words)
      (announces : Announces .packageWord (Spells name) behind tail)
      (ends : taken.getLast?.map (·.stop) = some stop) :
      Stands src classes taken behind (package name stop)
  | imported {words tail : List Located} {decl : Import} {stop : Nat}
      (split : taken = words ++ tail) (modifiers : Modifying words)
      (announces : Announces .importWord decl.Spelled behind tail)
      (ends : taken.getLast?.map (·.stop) = some stop) (span : decl.span = Span.over taken) :
      Stands src classes taken behind (imported decl stop)
  | declared {words tail : List Located} {id : ClassId} {d : ClassDecl}
      (split : taken = words ++ tail) (modifiers : Modifying words)
      (begins : beginsClass ((tail.take 2).map (·.token)) = true)
      (takes : d.Takes src tail behind id) (known : classes[id]? = some d)
      (span : d.span = Span.over taken) :
      Stands src classes taken behind (declared id)

/-- The span of an import or of a class. -/
def Covers (classes : List ClassDecl) (span : Span) : Item → Prop
  | imported decl _ => span = decl.span
  | declared id => ∃ d, classes[id]? = some d ∧ span = d.span
  | _ => False

section Stands

variable {src : Source} {classes more : List ClassDecl} {taken behind : List Located} {item : Item}
  {span : Span}

theorem covers_of_import {i : Import} (same : item.import? = some i) :
    item.Covers classes i.span := by
  cases item <;> cases same
  rfl

theorem covers_of_declared {id : ClassId} {d : ClassDecl} (same : item.declared? = some id)
    (known : classes[id]? = some d) : item.Covers classes d.span := by
  cases item <;> cases same
  exact ⟨d, known, rfl⟩

theorem Stands.ne_nil (stands : item.Stands src classes taken behind) : taken ≠ [] := by
  cases stands with
  | blank semicolon =>
    rintro rfl
    cases semicolon
  | package split _ announces => exact split ▸ announces.ne_nil _
  | imported split _ announces => exact split ▸ announces.ne_nil _
  | declared split _ begins =>
    rintro rfl
    rw [(List.append_eq_nil_iff.mp split.symm).2] at begins
    cases begins

theorem Stands.last_stop {stop : Nat} (stands : item.Stands src classes taken behind)
    (header : item.headerStop? = some stop) : taken.getLast?.map (·.stop) = some stop := by
  cases stands with
  | package _ _ _ ends => exact Option.some.inj header ▸ ends
  | imported _ _ _ ends => exact Option.some.inj header ▸ ends
  | _ => cases header

theorem Stands.covers (stands : item.Stands src classes taken behind)
    (covers : item.Covers classes span) : span = Span.over taken := by
  cases stands with
  | blank => cases covers
  | package => cases covers
  | imported _ _ _ _ whole => exact covers.trans whole
  | declared _ _ _ _ known whole =>
    obtain ⟨d, found, rfl⟩ := covers
    rw [known] at found
    cases found
    exact whole

theorem Stands.exists_covered (stands : item.Stands src classes taken behind)
    (covers : item.Covers classes span) (order : InOrder taken)
    (some : ∀ t ∈ taken, t.start < t.stop) :
    ∃ t ∈ taken, ∃ u ∈ taken, span = ⟨t.start, u.stop⟩ := by
  obtain ⟨t, t_inside, u, u_inside, whole, _⟩ := Span.exists_over stands.ne_nil order some
  exact ⟨t, t_inside, u, u_inside, (stands.covers covers).trans whole⟩

theorem Stands.mono (stands : item.Stands src classes taken behind) (extends' : classes <+: more) :
    item.Stands src more taken behind := by
  cases stands with
  | blank semicolon => exact .blank semicolon
  | package split modifiers announces ends => exact .package split modifiers announces ends
  | imported split modifiers announces ends span =>
    exact .imported split modifiers announces ends span
  | declared split modifiers begins takes known span =>
    have still := getElem?_of_prefix extends' known
    exact .declared split modifiers begins takes still span

end Stands

end Parser.Item

/-- The items of a source, each with its own tokens. -/
inductive Sections (src : Source) (classes : List ClassDecl) : List Located → List Item → Prop
  | nil : Sections src classes [] []
  | cons {taken ts : List Located} {item : Item} {items : List Item}
      (first : item.Stands src classes taken ts) (others : Sections src classes ts items) :
      Sections src classes (taken ++ ts) (item :: items)

/-- A unit is made of these items. -/
structure CompilationUnit.MadeOf (items : List Item) (u : CompilationUnit) : Prop where
  package : u.package = (items.filterMap Item.package?).getLast?
  imports : u.imports = items.filterMap Item.import?
  topLevel : u.topLevel = items.filterMap Item.declared?
  headerEnd : u.headerEnd = ((items.filterMap Item.headerStop?).getLast?).getD 0

theorem foldl_addTo (items : List Item) (u : CompilationUnit) :
    (items.foldl Item.addTo u).package =
      ((items.filterMap Item.package?).getLast?).or u.package ∧
    (items.foldl Item.addTo u).imports = u.imports ++ items.filterMap Item.import? ∧
    (items.foldl Item.addTo u).topLevel = u.topLevel ++ items.filterMap Item.declared? ∧
    (items.foldl Item.addTo u).headerEnd =
      ((items.filterMap Item.headerStop?).getLast?).getD u.headerEnd := by
  induction items generalizing u with
  | nil => simp
  | cons item items ih =>
    obtain ⟨package, imports, topLevel, headerEnd⟩ := ih (item.addTo u)
    rw [List.foldl_cons, package, imports, topLevel, headerEnd]
    cases item <;>
      simp [Item.addTo, Item.package?, Item.import?, Item.declared?, Item.headerStop?,
        List.filterMap_cons, List.getLast?_cons, Option.or_some]

theorem CompilationUnit.madeOf_foldl (items : List Item) (classes : List ClassDecl) :
    CompilationUnit.MadeOf items
      { items.foldl Item.addTo CompilationUnit.empty with classes := classes } := by
  obtain ⟨package, imports, topLevel, headerEnd⟩ := foldl_addTo items CompilationUnit.empty
  exact ⟨package.trans (Option.or_none), imports, topLevel, headerEnd⟩

namespace Parser

variable {src : Source} {c mid c' : Cursor}

section Words

theorem identifier_taken {name : String} (run : identifier.on src c = .ok (name, c')) :
    ∃ t, t.token.word? = some name ∧ c.Moves [t] c' := by
  have taken {t : Token} (head : c.rest.head?.map (·.token) = some t) (word : t.word? = some name) :
      ∃ t, t.token.word? = some name ∧ c.Moves [t] c.next := by
    obtain ⟨u, rfl, moves⟩ := Cursor.Moves.next_of_head head
    exact ⟨u, word, moves⟩
  rw [on_identifier] at run
  split at run
  · rename_i head
    cases run
    exact taken head rfl
  · rename_i head
    cases run
    exact taken head rfl
  · cases run

theorem expect_taken {s : Symbol} (run : (expect s).on src c = .ok (⟨⟩, c')) :
    ∃ t, t.token = .symbol s ∧ c.Moves [t] c' := by
  obtain ⟨head, rfl⟩ := on_expect_eq_ok run
  exact Cursor.Moves.next_of_head head

theorem expectKeyword_taken {word : Keyword}
    (run : (expectKeyword word).on src c = .ok (⟨⟩, c')) :
    ∃ t, t.token = .keyword word ∧ c.Moves [t] c' := by
  rw [on_expectKeyword] at run
  split at run
  · rename_i head
    cases run
    exact Cursor.Moves.next_of_head head
  · cases run

theorem acceptToken_taken {t : Token} {found : Bool}
    (run : (acceptToken t).on src c = .ok (found, c')) :
    found = true ∧ (∃ u, u.token = t ∧ c.Moves [u] c') ∨
      found = false ∧ c' = c ∧ c.rest.head?.map (·.token) ≠ some t := by
  rw [on_acceptToken] at run
  split at run
  · rename_i head
    cases run
    exact .inl ⟨rfl, Cursor.Moves.next_of_head head⟩
  · rename_i other
    cases run
    exact .inr ⟨rfl, rfl, other⟩

theorem dotName_taken {found : Option String} (run : dotName.on src c = .ok (found, c')) :
    (found = none ∧ c' = c) ∨ ∃ name dot t, found = some name ∧ dot.token = .symbol .dot ∧
      t.token.word? = some name ∧ c.Moves [dot, t] c' := by
  rw [dotName, on_bind_of_ok (on_upcoming 2)] at run
  split at run
  · rename_i name next
    obtain ⟨head, more⟩ := head_of_upcoming next
    obtain ⟨behind, _⟩ := head_of_upcoming more
    rw [on_bind_of_ok on_advance, on_bind_of_ok on_advance] at run
    cases run
    obtain ⟨dot, isDot, first⟩ := Cursor.Moves.next_of_head head
    obtain ⟨t, isName, second⟩ := Cursor.Moves.next_of_head behind
    exact .inr ⟨name, dot, t, rfl, isDot, by rw [isName]; rfl, first.trans second⟩
  · cases run
    exact .inl ⟨rfl, rfl⟩

theorem many_dotName_taken {names : List String} (run : (many dotName).on src c = .ok (names, c')) :
    ∃ taken, c.Moves taken c' ∧ ∀ t name, t.word? = some name →
      Dotted (t :: taken.map (·.token)) (name :: names) := by
  refine many_induction (motive := fun c names c' => ∃ taken, c.Moves taken c' ∧ ∀ t name,
    t.word? = some name → Dotted (t :: taken.map (·.token)) (name :: names)) ?_ ?_ run
  · intro c c' last
    obtain ⟨_, rfl⟩ | ⟨_, _, _, none, _⟩ := dotName_taken last
    · exact ⟨[], .refl _, fun t name word => .one word⟩
    · cases none
  · intro c mid c' name names first others
    obtain ⟨none, _⟩ | ⟨_, dot, t, same, isDot, word, moves⟩ := dotName_taken first
    · cases none
    cases same
    obtain ⟨taken, more, dotted⟩ := others
    refine ⟨_, moves.trans more, fun u first word' => ?_⟩
    simp only [List.map_append, List.map_cons, List.cons_append, isDot]
    exact .cons word' (dotted _ _ word)

theorem qualifiedName_taken {name : String} (run : qualifiedName.on src c = .ok (name, c')) :
    ∃ taken, c.Moves taken c' ∧ Spells name (taken.map (·.token)) := by
  obtain ⟨first, mid, begins, run⟩ := on_bind_eq_ok.mp run
  obtain ⟨others, _, more, run⟩ := on_bind_eq_ok.mp run
  cases run
  obtain ⟨t, word, moves⟩ := identifier_taken begins
  obtain ⟨taken, behind, dotted⟩ := many_dotName_taken more
  exact ⟨_, moves.trans behind, _, dotted _ _ word, rfl⟩

end Words

section Modifiers

/-- What closes a group is found without what follows the group. -/
theorem closeGroup_inside {opening closing : Symbol} {depth : Nat} {ts rest : List Located}
    {last : Located} (found : closeGroup opening closing depth ts = some (last, rest)) :
    ∃ inner, ts = inner ++ [last] ++ rest ∧
      closeGroup opening closing depth (inner ++ [last]) = some (last, []) := by
  fun_induction closeGroup opening closing depth ts with
  | case1 => cases found
  | case2 depth t ts opens ih =>
    obtain ⟨inner, rfl, alone⟩ := ih found
    exact ⟨t :: inner, rfl, by simpa only [List.cons_append, closeGroup, if_pos opens] using alone⟩
  | case3 t ts further closes =>
    cases found
    exact ⟨[], rfl, by simp only [List.nil_append, closeGroup, if_neg further, if_pos closes]⟩
  | case4 t ts further closes depth ih =>
    obtain ⟨inner, rfl, alone⟩ := ih found
    refine ⟨t :: inner, rfl, ?_⟩
    simpa only [List.cons_append, closeGroup, if_neg further, if_pos closes] using alone
  | case5 depth t ts further other ih =>
    obtain ⟨inner, rfl, alone⟩ := ih found
    refine ⟨t :: inner, rfl, ?_⟩
    simpa only [List.cons_append, closeGroup, if_neg further, if_neg other] using alone

theorem group_inside {opening closing : Symbol} {span : Span}
    (run : (group opening closing).on src c = .ok (span, c')) :
    ∃ first inner last, first.token = .symbol opening ∧
      c.Moves (first :: (inner ++ [last])) c' ∧
      closeGroup opening closing 0 (inner ++ [last]) = some (last, []) := by
  rw [on_group] at run
  split at run
  · rename_i head
    obtain ⟨first, opens, opened⟩ := Cursor.Moves.next_of_head head
    split at run
    · cases run
    · rename_i last rest found
      cases run
      obtain ⟨inner, whole, alone⟩ := closeGroup_inside found
      have closed : c.next.Moves (inner ++ [last])
          { c.next with rest := rest, lastStop := last.stop } :=
        ⟨whole, by rw [List.getLast?_concat]; rfl, List.prefix_rfl⟩
      exact ⟨first, inner, last, opens, opened.trans closed, alone⟩
  · cases run

theorem argumentText?_taken {args : Option String}
    (run : argumentText?.on src c = .ok (args, c')) :
    ∃ taken, c.Moves taken c' ∧ Arguments taken := by
  rw [argumentText?, on_bind_of_ok (on_sees _)] at run
  split at run
  · obtain ⟨text, _, inside, run⟩ := on_bind_eq_ok.mp run
    cases run
    obtain ⟨span, mid, grouped, cuts⟩ := on_bind_eq_ok.mp inside
    obtain ⟨first, inner, last, opens, moves, closes⟩ := group_inside grouped
    rw [on_cut] at cuts
    split at cuts
    · cases cuts
      exact ⟨_, moves, .group opens closes⟩
    · cases cuts
  · cases run
    exact ⟨[], .refl _, .none⟩

theorem annotation_taken {a : Annotation} (run : annotation.on src c = .ok (a, c')) :
    ∃ taken, c.Moves taken c' ∧ ∀ ts, Modifying ts → Modifying (taken ++ ts) := by
  unfold annotation at run
  rw [on_bind_of_ok on_nextStart] at run
  obtain ⟨_, _, sign, run⟩ := on_bind_eq_ok.mp run
  obtain ⟨name, _, named, run⟩ := on_bind_eq_ok.mp run
  obtain ⟨args, _, given, run⟩ := on_bind_eq_ok.mp run
  cases run
  obtain ⟨t, begins, first⟩ := expect_taken sign
  obtain ⟨path, second, names, dotted, _⟩ := qualifiedName_taken named
  obtain ⟨group, third, arguments⟩ := argumentText?_taken given
  refine ⟨t :: (path ++ group), first.trans (second.trans third), fun ts more => ?_⟩
  exact .annotated begins dotted arguments more

theorem modifier_taken {found : Option (String ⊕ Annotation)}
    (run : modifier.on src c = .ok (found, c')) :
    ∃ taken, c.Moves taken c' ∧ ∀ ts, Modifying ts → Modifying (taken ++ ts) := by
  have none : ∃ taken, c.Moves taken c ∧ ∀ ts, Modifying ts → Modifying (taken ++ ts) :=
    ⟨[], .refl _, fun _ more => more⟩
  rw [modifier, on_bind_of_ok (on_upcoming 2)] at run
  unfold modifierFrom at run
  split at run
  · cases run
    exact none
  · obtain ⟨a, _, read, run⟩ := on_bind_eq_ok.mp run
    cases run
    exact annotation_taken read
  · rename_i word _ next
    split at run
    · rename_i keyword
      rw [on_bind_of_ok on_advance] at run
      cases run
      obtain ⟨t, token, moves⟩ := Cursor.Moves.next_of_head (head_of_upcoming next).1
      exact ⟨[t], moves, fun ts => .word token keyword⟩
    · cases run
      exact none
  · cases run
    exact none

theorem modifiers_taken {found : Modifiers} (run : modifiers.on src c = .ok (found, c')) :
    ∃ taken, c.Moves taken c' ∧ Modifying taken := by
  obtain ⟨each, _, run, same⟩ := on_bind_eq_ok.mp run
  cases same
  refine many_induction (motive := fun c _ c' => ∃ taken, c.Moves taken c' ∧ Modifying taken)
    ?_ ?_ run
  · intro c c' last
    obtain ⟨taken, moves, modifying⟩ := modifier_taken last
    exact ⟨taken, moves, List.append_nil taken ▸ modifying [] .nil⟩
  · intro c mid c' _ _ first others
    obtain ⟨taken, moves, modifying⟩ := modifier_taken first
    obtain ⟨more, behind, others⟩ := others
    exact ⟨_, moves.trans behind, modifying more others⟩

end Modifiers

section Headers

theorem endDeclaration_taken (run : endDeclaration.on src c = .ok (⟨⟩, c')) :
    ∃ taken, c.Moves taken c' ∧ Terminates c'.rest taken := by
  rw [on_endDeclaration] at run
  split at run
  · obtain ⟨t, token, moves⟩ := expect_taken run
    exact ⟨[t], moves, .semicolon token⟩
  · split at run
    · rename_i head
      cases run
      obtain ⟨t, token, moves⟩ := Cursor.Moves.next_of_head head
      exact ⟨[t], moves, .semicolon token⟩
    · rename_i none
      cases run
      exact ⟨[], .refl _, .omitted none⟩

theorem importTailWithin_taken {bound : Nat} {found : List String × Bool}
    (run : (importTailWithin bound).on src c = .ok (found, c')) :
    ∃ taken, c.Moves taken c' ∧ ∀ t name, t.word? = some name → ∃ path,
      Dotted path (name :: found.1) ∧ t :: taken.map (·.token) =
        path ++ (if found.2 then [.symbol .dot, .operator '*'] else []) := by
  induction bound generalizing c found with
  | zero => cases run
  | succ bound ih =>
    rw [importTailWithin] at run
    obtain ⟨dotted, _, dot, further⟩ := on_bind_eq_ok.mp run
    obtain ⟨rfl, dot, isDot, first⟩ | ⟨rfl, rfl, _⟩ := acceptToken_taken dot
    · rw [if_pos rfl] at further
      obtain ⟨starred, _, star, named⟩ := on_bind_eq_ok.mp further
      obtain ⟨rfl, star, isStar, second⟩ | ⟨rfl, rfl, _⟩ := acceptToken_taken star
      · rw [if_pos rfl] at named
        cases named
        refine ⟨_, first.trans second, fun t name word => ⟨[t], .one word, ?_⟩⟩
        simp only [List.cons_append, List.nil_append, List.map_cons, List.map_nil, isDot, isStar,
          if_true]
      · rw [if_neg Bool.false_ne_true] at named
        obtain ⟨segment, _, spelled, more⟩ := on_bind_eq_ok.mp named
        obtain ⟨_, _, others, last⟩ := on_bind_eq_ok.mp more
        cases last
        obtain ⟨u, word, second⟩ := identifier_taken spelled
        obtain ⟨taken, third, rest⟩ := ih others
        obtain ⟨path, dotted, same⟩ := rest _ _ word
        refine ⟨_, first.trans (second.trans third), fun t name word' => ?_⟩
        refine ⟨t :: .symbol .dot :: path, .cons word' dotted, ?_⟩
        simp only [List.cons_append, List.nil_append, List.map_cons, isDot, same]
    · rw [if_neg Bool.false_ne_true] at further
      cases further
      exact ⟨[], .refl _, fun t name word => ⟨[t], .one word, rfl⟩⟩

theorem importDecl_taken {start : Nat} {decl : Import}
    (run : (importDecl start).on src c = .ok (decl, c')) :
    ∃ taken, c.Moves taken c' ∧ Announces .importWord decl.Spelled c'.rest taken ∧
      decl.span = ⟨start, max c'.lastStop start⟩ := by
  obtain ⟨_, _, keyword, run⟩ := on_bind_eq_ok.mp run
  obtain ⟨isStatic, _, static, run⟩ := on_bind_eq_ok.mp run
  obtain ⟨name, _, named, run⟩ := on_bind_eq_ok.mp run
  obtain ⟨tail, _, more, run⟩ := on_bind_eq_ok.mp run
  obtain ⟨_, _, ended, run⟩ := on_bind_eq_ok.mp run
  cases run
  rw [importTail, on_bind_of_ok on_get] at more
  obtain ⟨t, word, first⟩ := expectKeyword_taken keyword
  obtain ⟨u, isName, third⟩ := identifier_taken named
  obtain ⟨others, fourth, rest⟩ := importTailWithin_taken more
  obtain ⟨path, dotted, same⟩ := rest _ _ isName
  obtain ⟨semicolon, fifth, ends⟩ := endDeclaration_taken ended
  obtain ⟨front, second, shape, plain⟩ : ∃ front, Cursor.Moves _ front _ ∧
      front.map (·.token) = (if isStatic then [.name "static"] else []) ∧
      (isStatic = false → u.token ≠ .name "static") := by
    obtain ⟨rfl, s, token, moves⟩ | ⟨rfl, rfl, other⟩ := acceptToken_taken static
    · exact ⟨[s], moves, by rw [List.map_singleton, token]; rfl, nofun⟩
    · rw [third.rest] at other
      exact ⟨[], .refl _, rfl, fun _ same => other (congrArg some same)⟩
  refine ⟨t :: ((front ++ (u :: others)) ++ semicolon),
    first.trans ((second.trans (third.trans fourth)).trans fifth), ?_, rfl⟩
  refine .intro word ⟨⟨path, ⟨_, dotted, rfl⟩, ?_⟩, fun absent head => ?_⟩ ends
  · rw [List.map_append, shape, List.append_assoc]
    exact congrArg _ same
  · rw [List.map_append, shape, if_neg (by simpa using absent)] at head
    exact plain absent (Option.some.inj head)

/-- What reading a package declaration or an import leaves: no class was read, and documentation
read so far is taken. -/
structure ClosesHeader (c c' : Cursor) : Prop where
  classes : c'.classes = c.classes
  docFloor : c'.docFloor = c'.lastStop

theorem packageItem_reads {found : Item} (run : packageItem.on src c = .ok (found, c')) :
    ∃ name taken, c.Reads taken c' ∧ Announces .packageWord (Spells name) c'.rest taken ∧
      found = .package name c'.lastStop ∧ ClosesHeader c c' := by
  have quiet := classes_of_contained run
  obtain ⟨taken, reads⟩ := Reading.reads run
  obtain ⟨_, _, keyword, run⟩ := on_bind_eq_ok.mp run
  obtain ⟨name, _, named, run⟩ := on_bind_eq_ok.mp run
  obtain ⟨_, _, ended, run⟩ := on_bind_eq_ok.mp run
  cases run
  obtain ⟨t, word, first⟩ := expectKeyword_taken keyword
  obtain ⟨path, second, spells⟩ := qualifiedName_taken named
  obtain ⟨semicolon, third, ends⟩ := endDeclaration_taken ended
  have whole := first.trans (second.trans third)
  have same : t :: (path ++ semicolon) = taken :=
    reads.taken_eq ⟨whole.rest, whole.lastStop, whole.classes⟩
  exact ⟨name, taken, reads, same ▸ .intro word spells ends, rfl, quiet, rfl⟩

theorem importItem_reads {start : Nat} {found : Item}
    (run : (importItem start).on src c = .ok (found, c')) :
    ∃ decl taken, c.Reads taken c' ∧ Announces .importWord decl.Spelled c'.rest taken ∧
      found = .imported decl c'.lastStop ∧ decl.span = ⟨start, max c'.lastStop start⟩ ∧
      ClosesHeader c c' := by
  have quiet := classes_of_contained run
  obtain ⟨taken, reads⟩ := Reading.reads run
  obtain ⟨decl, _, read, run⟩ := on_bind_eq_ok.mp run
  cases run
  obtain ⟨taken', whole, announces, span⟩ := importDecl_taken read
  obtain rfl := reads.taken_eq ⟨whole.rest, whole.lastStop, whole.classes⟩
  exact ⟨decl, _, reads, announces, rfl, span, quiet, rfl⟩

theorem lastStop_eq {taken : List Located} (moves : c.Moves taken c') (some : taken ≠ []) :
    taken.getLast?.map (·.stop) = Option.some c'.lastStop := by
  rw [moves.lastStop, List.getLast?_eq_some_getLast some]
  rfl

/-- An item is read from its tokens. -/
theorem item_reads {found : Item} (run : item.on src c = .ok (found, c')) :
    ∃ taken, c.Reads taken c' ∧ found.Stands src c'.classes taken c'.rest ∧
      (found.headerStop? ≠ none → ClosesHeader c c') := by
  rw [item] at run
  obtain ⟨ended, mid, first, further⟩ := on_bind_eq_ok.mp run
  obtain ⟨semicolon, reads⟩ := Reading.reads first
  obtain ⟨rfl, t, token, moves⟩ | ⟨rfl, rfl, _⟩ := acceptToken_taken first
  · cases further
    obtain rfl := reads.taken_eq moves
    exact ⟨_, reads, .blank (by rw [List.map_singleton, token]), fun none => absurd rfl none⟩
  rw [if_neg Bool.false_ne_true, on_bind_of_ok on_nextStart, on_bind_of_ok (on_docBefore _)]
    at further
  obtain ⟨modifiers, behind, words, run⟩ := on_bind_eq_ok.mp further
  obtain ⟨front, before⟩ := Reading.reads words
  obtain ⟨front', moves, modifying⟩ := modifiers_taken words
  obtain rfl := before.taken_eq moves
  have quiet := classes_of_contained words
  rw [on_bind_of_ok (on_upcoming 2)] at run
  unfold itemFrom at run
  split at run
  · obtain ⟨name, tail, reads, announces, rfl, closes⟩ := packageItem_reads run
    have whole := before.trans reads
    have some := announces.ne_nil front'
    exact ⟨_, whole, .package rfl modifying announces (lastStop_eq whole.moves some),
      fun _ => ⟨closes.classes.trans quiet, closes.docFloor⟩⟩
  split at run
  · obtain ⟨decl, tail, reads, announces, rfl, span, closes⟩ := importItem_reads run
    have whole := before.trans reads
    have some := announces.ne_nil front'
    exact ⟨_, whole, .imported rfl modifying announces (lastStop_eq whole.moves some)
      (span.trans (whole.moves.over some _).symm),
      fun _ => ⟨closes.classes.trans quiet, closes.docFloor⟩⟩
  split at run
  · rename_i begins
    obtain ⟨id, last, read, run⟩ := on_bind_eq_ok.mp run
    cases run
    obtain ⟨tail, whole, two, d, known, span⟩ := (classDecl_reads read).reads before
    have ahead : behind.rest = tail ++ c'.rest :=
      List.append_cancel_left (moves.rest.symm.trans (by rw [whole.moves.rest, List.append_assoc]))
    rw [ahead, List.take_append_of_le_length two] at begins
    exact ⟨_, whole, .declared rfl modifying begins ⟨_, _, _, _, _, read, ahead, rfl, known⟩ known
      span, fun none => absurd rfl none⟩
  · rw [on_bind_of_ok on_nextStart] at run
    cases run

theorem unitStep_none (run : unitStep.on src c = .ok (none, c')) : c.rest = [] ∧ c' = c := by
  rw [unitStep, on_bind_of_ok on_atEnd] at run
  split at run
  · rename_i ended
    cases run
    exact ⟨List.isEmpty_iff.mp ended, rfl⟩
  · obtain ⟨_, _, _, run⟩ := on_bind_eq_ok.mp run
    cases run

theorem unitStep_some {found : Item} (run : unitStep.on src c = .ok (some found, c')) :
    item.on src c = .ok (found, c') := by
  rw [unitStep, on_bind_of_ok on_atEnd] at run
  split at run
  · cases run
  · obtain ⟨_, _, one, run⟩ := on_bind_eq_ok.mp run
    cases run
    exact one

/-- A source is read item by item to its end. -/
theorem unit_reads {u : CompilationUnit} (run : unit.on src c = .ok (u, c')) :
    ∃ items, c.Reads c.rest c' ∧ Sections src c'.classes c.rest items ∧
      u = { items.foldl Item.addTo CompilationUnit.empty with classes := c'.classes } := by
  obtain ⟨items, last, each, run⟩ := on_bind_eq_ok.mp run
  rw [on_bind_of_ok on_get] at run
  cases run
  have all : c.Reads c.rest c' ∧ Sections src c'.classes c.rest items := by
    refine many_induction (motive := fun c items c' =>
      c.Reads c.rest c' ∧ Sections src c'.classes c.rest items) ?_ ?_ each
    · intro c c' ended
      obtain ⟨none, rfl⟩ := unitStep_none ended
      rw [none]
      exact ⟨.refl _, .nil⟩
    · intro c mid c' found items stepped behind
      obtain ⟨taken, first, stands, _⟩ := item_reads (unitStep_some stepped)
      rw [first.moves.rest]
      exact ⟨first.trans behind.1, .cons (stands.mono behind.1.moves.classes) behind.2⟩
  exact ⟨items, all.1, all.2, rfl⟩

end Headers

end Parser

end CreatorSynth
