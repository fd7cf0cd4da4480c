import CreatorSynth.Proofs.Parser.Enclosure.Classes
import CreatorSynth.Proofs.Token.Separators

/-! A text that is read as a member by itself is the one member of a class that has it for its
body. -/
namespace CreatorSynth
open Text

/-- How a class begins that has its body on the lines behind. -/
def classOpening (className : String) : String :=
  "class " ++ className ++ " \x7b\n"

/-- A class of that name with a text for its body. -/
def classAround (className text : String) : String :=
  classOpening className ++ text ++ "\n\x7d"

theorem utf8ByteSize_classOpening (className : String) :
    (classOpening className).utf8ByteSize = className.utf8ByteSize + 9 := by
  have first : "class ".utf8ByteSize = 6 := by decide
  have last : " \x7b\n".utf8ByteSize = 3 := by decide
  rw [classOpening, String.utf8ByteSize_append, String.utf8ByteSize_append]
  omega

/-- A class of that name with nothing but members, that begins the source and ends with its body. -/
def ClassDecl.around (className : String) (members : List Member) (body : Span) : ClassDecl where
  kind := .ordinary
  name := className
  modifiers := .empty
  typeParams := []
  extends? := none
  implements := []
  recordComponents := []
  members := members
  doc := none
  bodySpan := body
  span := ⟨0, body.stop⟩

namespace Piece

/-- The pieces in front of the body. -/
def opening (className : String) : List Piece :=
  [token (.keyword .classWord), gap [' '], token (.name className), gap [' '],
    token (.symbol .lbrace), gap ['\n']]

/-- The pieces behind the body. -/
def closing : List Piece :=
  [gap ['\n'], token (.symbol .rbrace)]

variable {className : String} {pieces : List Piece}

theorem flatMap_text_opening (className : String) :
    (opening className).flatMap text = (classOpening className).toList := by
  simp [opening, classOpening, text, Token.text, Keyword.text, Symbol.text]

/-- Nothing behind the body ends a comment or a text block that the body leaves open. -/
theorem fit_classAround (name : IsName className) (stand : AllStand pieces []) :
    Fit (opening className ++ (pieces ++ closing)) [] := by
  have body : Fit pieces (closing.flatMap text ++ []) := by
    apply stand.fit_feed
    intro closer opened
    rcases opened.closer_cases with rfl | rfl
    · exact (by decide : ¬ ['*', '/'] <:+: ['\n', '}'])
    · exact (by decide : ¬ ['"', '"', '"'] <:+: ['\n', '}'])
  have behind : Fit closing [] :=
    ⟨.inr ⟨_, rfl, rfl⟩, .inl (stands_symbol nofun), trivial⟩
  apply fit_append.mpr
  constructor
  · exact ⟨.inl (stands_keyword rfl), .inr ⟨_, rfl, rfl⟩, .inl (stands_name name rfl),
      .inr ⟨_, rfl, rfl⟩, .inl (stands_symbol nofun), .inr ⟨_, rfl, rfl⟩, trivial⟩
  · exact fit_append.mpr ⟨body, behind⟩

end Piece

/-- The closing brace of the class. -/
def braceBehind (className text : String) : Located :=
  let start := (classOpening className).utf8ByteSize + text.utf8ByteSize + 1
  ⟨.symbol .rbrace, start, start + 1⟩

/-- The tokens of the class, given those of the body. -/
def tokensAround (className text : String) (located : List Located) : List Located :=
  Piece.locate 0 (Piece.opening className) ++
    located.map (Located.behind (byteLength (classOpening className).toList)) ++
    [braceBehind className text]

theorem tokenize_classAround {className text : String} {located : List Located}
    (name : IsName className) (tokens : tokenize text = .ok located) :
    tokenize (classAround className text) = .ok (tokensAround className text located) := by
  obtain ⟨pieces, whole, stand, rfl⟩ := Piece.exists_pieces_of_tokenize tokens
  have cut := Piece.tokenize_of_fit (Piece.fit_classAround name stand)
  have source : (Piece.opening className ++ (pieces ++ Piece.closing)).flatMap Piece.text =
      (classAround className text).toList := by
    rw [List.flatMap_append, List.flatMap_append, Piece.flatMap_text_opening, whole, classAround,
      String.toList_append, String.toList_append, List.append_assoc]
    rfl
  have closing (n : Nat) : Piece.locate n Piece.closing = [⟨.symbol .rbrace, n + 1, n + 1 + 1⟩] :=
    rfl
  rw [source, String.ofList_toList, Piece.locate_append, Piece.locate_append, closing, Nat.zero_add,
    Piece.flatMap_text_opening, whole, byteLength_toList text] at cut
  rw [cut, tokensAround, ← List.append_assoc, ← Piece.locate_behind, braceBehind,
    byteLength_toList]
  rfl

namespace Parser

section Class

variable {src : Source} {i j k l p q last floor : Nat} {className : String} {more : List Located}
  {classes : List ClassDecl}

theorem modifiers_of_class :
    modifiers.on src ⟨⟨.keyword .classWord, i, j⟩ :: more, last, floor, classes⟩ =
      .ok (.empty, ⟨⟨.keyword .classWord, i, j⟩ :: more, last, floor, classes⟩) :=
  rfl

theorem classHead_of_class :
    classHead.on src ⟨⟨.keyword .classWord, i, j⟩ :: ⟨.name className, k, l⟩ ::
      ⟨.symbol .lbrace, p, q⟩ :: more, last, floor, classes⟩ =
      .ok (⟨.ordinary, className, [], [], (none, [])⟩,
        ⟨⟨.symbol .lbrace, p, q⟩ :: more, l, floor, classes⟩) :=
  rfl

theorem bracedBody_of_brace {kind : ClassKind} {member : Parser (List Member)} :
    (bracedBody kind member).on src ⟨⟨.symbol .lbrace, p, q⟩ :: more, last, floor, classes⟩ =
      (do
        let members ← classBody kind member
        expect .rbrace
        return (members, ← spanFrom p)).on src ⟨more, q, p, classes⟩ :=
  rfl

theorem classOver_of_body {member : String → Parser (List Member)} {members : List Member}
    {start stop floor' : Nat} {classes' : List ClassDecl}
    (body : (bracedBody .ordinary (member className)).on src
        ⟨⟨.symbol .lbrace, p, q⟩ :: more, l, floor, classes⟩ =
      .ok ((members, ⟨start, stop⟩), ⟨[], stop, floor', classes'⟩)) :
    (classOver member .empty 0 none).on src ⟨⟨.keyword .classWord, i, j⟩ ::
        ⟨.name className, k, l⟩ :: ⟨.symbol .lbrace, p, q⟩ :: more, last, floor, classes⟩ =
      .ok (classes'.length,
        ⟨[], stop, stop, classes' ++ [.around className members ⟨start, stop⟩]⟩) := by
  have noted : closeDocs.on src ⟨[], stop, floor', classes'⟩ =
      .ok (⟨⟩, ⟨[], stop, stop, classes'⟩) :=
    rfl
  rw [classOver, on_bind_of_ok classHead_of_class, on_bind_of_ok body, on_bind_of_ok noted,
    on_bind_of_ok (on_spanFrom 0), Nat.max_zero]
  rfl

theorem item_of_class {c c' : Cursor} {id : ClassId} (docs : ∀ d ∈ src.docs, 0 < d.stop)
    (ahead : c.rest = ⟨.keyword .classWord, 0, j⟩ :: more)
    (decl : (classDecl .empty 0 none).on src c = .ok (id, c')) :
    item.on src c = .ok (.declared id, c') := by
  obtain ⟨_, last, floor, classes⟩ := c
  subst ahead
  have other : (accept .semicolon).on src
      ⟨⟨.keyword .classWord, 0, j⟩ :: more, last, floor, classes⟩ =
        .ok (false, ⟨⟨.keyword .classWord, 0, j⟩ :: more, last, floor, classes⟩) :=
    rfl
  have plain : (docBefore 0).on src ⟨⟨.keyword .classWord, 0, j⟩ :: more, last, floor, classes⟩ =
      .ok (none, ⟨⟨.keyword .classWord, 0, j⟩ :: more, last, floor, classes⟩) := by
    rw [on_docBefore, docAt_zero docs]
  rw [item, on_bind_of_ok other, if_neg Bool.false_ne_true, on_bind_of_ok on_nextStart]
  change (docBefore 0 >>= _).on src _ = _
  rw [on_bind_of_ok plain, on_bind_of_ok modifiers_of_class, on_bind_of_ok (on_upcoming 2)]
  change (classDecl .empty 0 none >>= fun id => pure (Item.declared id)).on src _ = _
  rw [on_bind_of_ok decl, on_pure]

theorem unit_of_item {c c' : Cursor} {id : ClassId} (run : item.on src c = .ok (.declared id, c'))
    (some : c.rest ≠ []) (ended : c'.rest = []) :
    unit.on src c = .ok (⟨none, [], 0, c'.classes, [id]⟩, c') := by
  have first := unitStep_of_item some run
  have last : unitStep.on src c' = .ok (none, c') := by
    rw [unitStep, on_bind_of_ok on_atEnd, ended]
    rfl
  have shorter : c'.rest.length < c.rest.length := by
    rw [ended]
    exact List.length_pos_iff.mpr some
  rw [unit, on_bind_of_ok (on_many_of_steps (.more first shorter (.done last)))]
  rfl

theorem member_of_brace :
    (member className).on src ⟨⟨.symbol .rbrace, i, j⟩ :: more, last, floor, classes⟩ =
      .error (.unexpected i .identifier (some (.symbol .rbrace))) :=
  rfl

end Class

namespace Enclosure

variable {E : Enclosure} {c d c' : Cursor} {className : String} {m : Member} {depth : Nat}

/-- A text that begins a member does not begin with a closing brace. -/
theorem no_brace_of_member (here : E.At c d)
    (run : (member className).on E.inner c = .ok ([m], c')) :
    (d.rest.head?.map (·.token) == some (.symbol .rbrace)) = false := by
  rw [here.head_of_pos (Nat.zero_lt_of_lt (Eats.eats run))]
  obtain ⟨_ | ⟨⟨t, i, j⟩, rest⟩, last, floor, classes⟩ := c
  · rfl
  · apply beq_false_of_ne
    intro same
    cases same
    rw [member_of_brace] at run
    cases run

theorem classBody_of_member (here : E.At c d) (deep : E.limit < depth)
    (run : (member className).on E.inner c = .ok ([m], c')) (ended : c'.rest = []) :
    ∃ d', (classBody .ordinary (memberOver (classWithin depth) className)).on E.outer d =
      .ok ([m.shift E.offset], d') ∧ E.At c' d' := by
  have follows : E.Follows 0 _ _ (memberOver (classWithin depth) className) :=
    follows_memberOver (nests_limit deep)
  obtain ⟨d', run', there⟩ := follows.follow here (Nat.zero_le _) run
  have more : d.rest ≠ [] := by simp [here.rest, closed]
  have first : (classStep (memberOver (classWithin depth) className)).on E.outer d =
      .ok (some [m.shift E.offset], d') := by
    rw [classStep, on_bind_of_ok (on_sees .rbrace), no_brace_of_member here run,
      if_neg Bool.false_ne_true, on_bind_of_ok (by rw [on_expectMore, if_neg more]),
      on_bind_of_ok run']
    rfl
  have last : (classStep (memberOver (classWithin depth) className)).on E.outer d' =
      .ok (none, d') := by
    rw [classStep, on_bind_of_ok (on_sees .rbrace), there.rest, ended, closed, List.map_nil,
      List.nil_append, List.head?_cons, Option.map_some, E.closes]
    rfl
  have shorter : d'.rest.length < d.rest.length := by
    have eaten := Eats.eats run
    rw [there.rest, here.rest]
    simpa [closed] using eaten
  refine ⟨d', ?_, there⟩
  rw [classBody, leadingConstants, if_neg nofun, on_bind_of_ok (on_pure _),
    on_bind_of_ok (on_many_of_steps (.more first shorter (.done last)))]
  rfl

end Enclosure

/-- The text in the class of that name. -/
def Enclosure.inClass (className text : String) (dialect : Dialect) (located : List Located) :
    Enclosure where
  inner := sourceOf text dialect located
  outer := sourceOf (classAround className text) dialect (tokensAround className text located)
  front := (classOpening className).toList
  back := ['\n', '}']
  brace := braceBehind className text
  limit := (start located).rest.length
  text := by
    simp only [sourceOf, classAround, String.toList_append]
    rfl
  dialect := rfl
  docs := by
    simp only [sourceOf, tokensAround, List.filter_append, Located.filter_behind]
    simp [Piece.opening, Piece.locate, braceBehind, Token.isDoc]
  closes := rfl

section Class

variable {className text : String} {dialect : Dialect} {located : List Located}

theorem locate_opening : Piece.locate 0 (Piece.opening className) =
    [⟨.keyword .classWord, 0, 5⟩, ⟨.name className, 6, className.utf8ByteSize + 6⟩,
      ⟨.symbol .lbrace, className.utf8ByteSize + 7, className.utf8ByteSize + 8⟩] := by
  have placed : Piece.locate 0 (Piece.opening className) =
      [⟨.keyword .classWord, 0, 5⟩, ⟨.name className, 6, 6 + byteLength className.toList⟩,
        ⟨.symbol .lbrace, 6 + byteLength className.toList + 1,
          6 + byteLength className.toList + 2⟩] :=
    rfl
  rw [placed, byteLength_toList, Nat.add_comm 6]

theorem start_around (dialect : Dialect) : start (tokensAround className text located) =
    ⟨⟨.keyword .classWord, 0, 5⟩ :: ⟨.name className, 6, className.utf8ByteSize + 6⟩ ::
      ⟨.symbol .lbrace, className.utf8ByteSize + 7, className.utf8ByteSize + 8⟩ ::
      (Enclosure.inClass className text dialect located).closed (start located).rest,
      0, 0, []⟩ := by
  rw [start, tokensAround, locate_opening, List.filter_append, List.filter_append,
    Located.filter_behind _ fun t => !t.isDoc]
  rfl

theorem stop_braceBehind :
    (braceBehind className text).stop = (classAround className text).utf8ByteSize := by
  rw [classAround, String.utf8ByteSize_append, String.utf8ByteSize_append]
  rfl

end Class

section Wrapping

variable {className text : String} {dialect : Dialect} {located : List Located} {m : Member}
  {c' : Cursor} {depth last : Nat}

theorem at_opened : (Enclosure.inClass className text dialect located).At (start located)
    ⟨(Enclosure.inClass className text dialect located).closed (start located).rest,
      className.utf8ByteSize + 8, className.utf8ByteSize + 7, []⟩ := by
  have offset : (Enclosure.inClass className text dialect located).offset =
      className.utf8ByteSize + 9 :=
    (byteLength_toList _).trans (utf8ByteSize_classOpening className)
  constructor
  · rfl
  · rw [offset]
    exact Nat.sub_eq_zero_of_le (Nat.le_succ _)
  · rw [offset]
    exact Nat.sub_eq_zero_of_le (Nat.le_add_right _ 2)
  · rfl
  · exact Nat.le_refl _

theorem start_le_stop_braceBehind :
    className.utf8ByteSize + 7 ≤ (braceBehind className text).stop := by
  rw [braceBehind, utf8ByteSize_classOpening]
  simp only
  omega

variable (run : (member className).on (sourceOf text dialect located) (start located) =
    .ok ([m], c'))
  (ended : c'.rest = [])
include run ended

/-- The member is read behind the opening brace, and nothing but the closing one behind it. -/
theorem bracedBody_of_member (deep : (start located).rest.length < depth) :
    let E := Enclosure.inClass className text dialect located
    ∃ floor, (bracedBody .ordinary (memberOver (classWithin depth) className)).on E.outer
        ⟨⟨.symbol .lbrace, className.utf8ByteSize + 7, className.utf8ByteSize + 8⟩ ::
          E.closed (start located).rest, last, 0, []⟩ =
      .ok (([m.shift E.offset], ⟨className.utf8ByteSize + 7, E.brace.stop⟩),
        ⟨[], E.brace.stop, floor, c'.classes.map (ClassDecl.shift E.offset)⟩) := by
  intro E
  have ordered : className.utf8ByteSize + 7 ≤ E.brace.stop := start_le_stop_braceBehind
  obtain ⟨d', body, there⟩ := E.classBody_of_member at_opened deep run ended
  have ahead : d'.rest = [E.brace] := by
    rw [there.rest, ended, Enclosure.closed, List.map_nil, List.nil_append]
  have closing : (expect .rbrace).on E.outer d' =
      .ok (⟨⟩, ⟨[], E.brace.stop, d'.docFloor, d'.classes⟩) := by
    rw [on_expect, Cursor.next, ahead, List.head?_cons, Option.map_some, E.closes, if_pos rfl]
  refine ⟨d'.docFloor, ?_⟩
  rw [bracedBody_of_brace, on_bind_of_ok body, on_bind_of_ok closing, there.classes,
    on_bind_of_ok (on_spanFrom _), Nat.max_eq_left ordered, on_pure]

theorem classDecl_of_member :
    let E := Enclosure.inClass className text dialect located
    (classDecl .empty 0 none).on E.outer (start (tokensAround className text located)) =
      .ok (c'.classes.length, ⟨[], E.brace.stop, E.brace.stop,
        c'.classes.map (ClassDecl.shift E.offset) ++
          [.around className [m.shift E.offset] ⟨className.utf8ByteSize + 7, E.brace.stop⟩]⟩) := by
  intro E
  have deep : (start located).rest.length < (E.closed (start located).rest).length + 3 := by
    rw [Enclosure.closed, List.length_append, List.length_map]
    omega
  obtain ⟨floor, body⟩ := bracedBody_of_member run ended deep
  have number : (c'.classes.map (ClassDecl.shift E.offset)).length = c'.classes.length :=
    List.length_map _
  rw [start_around dialect, classDecl, on_bind_of_ok on_get, ← number]
  exact classOver_of_body body

end Wrapping

end Parser

/-- A text that is read as a member of a class by itself is read alike where it is the body of that
class: the class is the only one at the top, it has that member and no other one, and the places of
the member and of what is nested in it are those in the longer text. -/
theorem parseUnit_classAround {text className : String} {dialect : Dialect} {m : Member}
    (name : LexesAsName className) (accepted : parseMember text className dialect = .ok m) :
    let offset := (classOpening className).utf8ByteSize
    ∃ cursor, (Parser.member className).run text dialect = .ok ([m], cursor) ∧
      parseUnit (classAround className text) dialect = .ok {
        package := none
        imports := []
        headerEnd := 0
        classes := cursor.classes.map (ClassDecl.shift offset) ++
          [.around className [m.shift offset]
            ⟨offset - 2, (classAround className text).utf8ByteSize⟩]
        topLevel := [cursor.classes.length] } := by
  intro offset
  obtain ⟨located, c', tokens, run, ended⟩ := parseMember_eq_ok.mp accepted
  have around := tokenize_classAround (isName_of_lexesAsName name) tokens
  have decl := Parser.classDecl_of_member run ended
  have ahead := congrArg Cursor.rest (@Parser.start_around className text located dialect)
  have item := Parser.item_of_class (Parser.stop_pos_of_mem_docs around) ahead decl
  have unit := Parser.unit_of_item item (ahead ▸ List.cons_ne_nil _ _) rfl
  have read := parseUnit_eq_ok.mpr ⟨_, _, around, unit⟩
  have front : offset - 2 = className.utf8ByteSize + 7 :=
    congrArg (· - 2) (utf8ByteSize_classOpening className)
  have shift : (Parser.Enclosure.inClass className text dialect located).offset = offset :=
    byteLength_toList _
  have stop : (Parser.Enclosure.inClass className text dialect located).brace.stop =
      (classAround className text).utf8ByteSize := Parser.stop_braceBehind
  rw [shift, stop, ← front] at read
  exact ⟨c', Parser.run_eq_ok.mpr ⟨located, tokens, run⟩, read⟩

/-- In Groovy the field ends with the text, in the class it ends in front of the brace. -/
def openField : String :=
  "/** kept */ int a // last"

def openFieldDecl : FieldDecl :=
  ⟨.empty, .simple "int", "a", none, some "/** kept */", ⟨12, 17⟩⟩

theorem openField_classAround : LexesAsName "C" ∧
    parseMember openField "C" .groovy = .ok (.field openFieldDecl) ∧
    parseUnit "class C \x7b\n/** kept */ int a // last\n\x7d" .groovy =
      .ok ⟨none, [], 0, [.around "C" [.field { openFieldDecl with span := ⟨22, 27⟩ }] ⟨8, 37⟩],
        [0]⟩ := by
  have name : LexesAsName "C" := by decide
  have accepted : parseMember openField "C" .groovy = .ok (.field openFieldDecl) :=
    eq_ok_of_toOption (by decide +kernel)
  obtain ⟨cursor, run, read⟩ := parseUnit_classAround name accepted
  have found : ((Parser.member "C").run openField .groovy).toOption.map (·.2.classes) =
      some [] := by
    decide +kernel
  rw [run] at found
  have nested : cursor.classes = [] := Option.some.inj found
  rw [nested] at read
  exact ⟨name, accepted, read⟩

end CreatorSynth
