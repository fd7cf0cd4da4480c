import CreatorSynth.Proofs.Printer.Pieces

/-! The lexer finds the pieces of a printed signature, and those of a constructor, in its text. -/
namespace CreatorSynth
open Text

/-- A text that ends a word in front of it. -/
def Breaks (cs : List Char) : Prop :=
  cs.head?.any isNamePart = false

theorem breaks_cons {c : Char} (other : isNamePart c = false) (cs : List Char) : Breaks (c :: cs) :=
  other

namespace Piece

variable {pieces : List Piece} {raws : List (List Piece)} {rest : List Char}

theorem breaks_symbol (s : Symbol) (pieces : List Piece) (rest : List Char) :
    Breaks ((token (.symbol s) :: pieces).flatMap text ++ rest) := by
  have first : ∃ c cs, s.text.toList = c :: cs ∧ isNamePart c = false := by
    cases s <;> exact ⟨_, _, rfl, by decide⟩
  obtain ⟨c, cs, shape, other⟩ := first
  rw [List.flatMap_cons, text, Token.text, shape]
  exact breaks_cons other _

theorem breaks_gap {g : List Char} (some : g ≠ []) (blank : g.all isGapChar = true)
    (pieces : List Piece) (rest : List Char) : Breaks ((gap g :: pieces).flatMap text ++ rest) := by
  obtain ⟨c, g, rfl⟩ := List.exists_cons_of_ne_nil some
  refine breaks_cons ?_ _
  cases part : isNamePart c with
  | false => rfl
  | true =>
    rw [List.all_cons, isGapChar_of_isNamePart part] at blank
    cases blank

theorem breaks_space (pieces : List Piece) (rest : List Char) :
    Breaks ((gap [' '] :: pieces).flatMap text ++ rest) :=
  breaks_gap (List.cons_ne_nil _ _) (by decide) pieces rest

theorem plain_symbol (s : Symbol) : (token (.symbol s)).Plain := by
  cases s <;> decide

theorem plain_gap {g : List Char} (blank : g.all isGapChar = true) : (gap g).Plain := by
  intro c member
  have found := List.all_eq_true.mp blank c member
  refine ⟨?_, ?_, ?_⟩ <;> rintro rfl <;> revert found <;> decide

theorem plain_space : (gap [' ']).Plain :=
  plain_gap (by decide)

theorem plain_keyword (word : Keyword) : (token (.keyword word)).Plain := by
  cases word <;> decide

theorem plain_word {s : String} (word : IsWord s) : (token (wordToken s)).Plain := by
  intro c member
  obtain ⟨first, cs, shape, start, parts⟩ := word.shape
  have part : isNamePart c = true := by
    rw [text_word, shape] at member
    rcases List.mem_cons.mp member with rfl | later
    · exact isNamePart_of_isNameStart start
    · exact List.all_eq_true.mp parts c later
  refine ⟨?_, ?_, ?_⟩ <;> rintro rfl <;> revert part <;> decide

namespace Sewn

theorem gap {g : List Char} (blank : g.all isGapChar = true) (more : Sewn rest pieces raws) :
    Sewn rest (.gap g :: pieces) raws :=
  .plain (plain_gap blank) (.inr ⟨g, rfl, blank⟩) more

theorem space (more : Sewn rest pieces raws) : Sewn rest (.gap [' '] :: pieces) raws :=
  .gap (by decide) more

theorem symbol {s : Symbol} (other : s ≠ .dot) (more : Sewn rest pieces raws) :
    Sewn rest (token (.symbol s) :: pieces) raws :=
  .plain (plain_symbol s) (.inl (stands_symbol fun same => absurd same other)) more

theorem word {s : String} (word : IsWord s) (breaks : Breaks (pieces.flatMap text ++ rest))
    (more : Sewn rest pieces raws) : Sewn rest (token (wordToken s) :: pieces) raws :=
  .plain (plain_word word) (.inl (stands_word word breaks)) more

theorem name {s : String} (name : IsName s) (breaks : Breaks (pieces.flatMap text ++ rest))
    (more : Sewn rest pieces raws) : Sewn rest (token (.name s) :: pieces) raws :=
  wordToken_of_isName name ▸ .word (.inl name) breaks more

theorem keyword {word : Keyword} (breaks : Breaks (pieces.flatMap text ++ rest))
    (more : Sewn rest pieces raws) : Sewn rest (token (.keyword word) :: pieces) raws :=
  .plain (plain_keyword word) (.inl (stands_keyword breaks)) more

theorem of_allStand (stand : AllStand pieces rest) (plain : ∀ p ∈ pieces, p.Plain) :
    Sewn rest pieces [] := by
  induction pieces with
  | nil => exact .nil
  | cons piece pieces ih =>
    obtain ⟨first, others⟩ := List.forall_mem_cons.mp plain
    exact .plain first (.inl stand.1) (ih stand.2 others)

/-- Items are sewn with a separator between them, if they are in front of what follows one. -/
theorem separatedBy {α : Type} {separator : List Piece} {item : α → List Piece}
    {inner : α → List (List Piece)} {items : List α} (Next : List Char → Prop) (last : Next rest)
    (each : ∀ a ∈ items, ∀ rest, Next rest → Sewn rest (item a) (inner a))
    (between : ∀ a ∈ items, ∀ rest, Sewn ((item a).flatMap text ++ rest) separator [])
    (next : ∀ pieces rest, Next ((separator ++ pieces).flatMap text ++ rest)) :
    Sewn rest (separatedBy separator (items.map item)) (items.flatMap inner) := by
  have others : ∀ items' : List α, (∀ a ∈ items', a ∈ items) →
      Sewn rest ((items'.map item).flatMap (separator ++ ·)) (items'.flatMap inner) ∧
        Next (((items'.map item).flatMap (separator ++ ·)).flatMap text ++ rest) := by
    intro items' inside
    induction items' with
    | nil => exact ⟨.nil, last⟩
    | cons a items' ih =>
      obtain ⟨sewn, follows⟩ := ih fun b member => inside b (List.mem_cons_of_mem _ member)
      have here := inside a List.mem_cons_self
      rw [List.map_cons, List.flatMap_cons]
      refine ⟨(onto ?_ (each a here _ follows)).append sewn, ?_⟩
      · exact between a here _
      · rw [List.append_assoc]
        exact next _ _
  cases items with
  | nil => exact .nil
  | cons a items =>
    obtain ⟨sewn, follows⟩ := others items fun b member => List.mem_cons_of_mem _ member
    exact (each a List.mem_cons_self _ follows).append sewn

theorem comma : Sewn rest commaPieces [] :=
  .symbol nofun (.space .nil)

theorem commas {α : Type} {item : α → List Piece} {inner : α → List (List Piece)} {items : List α}
    (breaks : Breaks rest) (each : ∀ a ∈ items, ∀ rest, Breaks rest → Sewn rest (item a) (inner a)) :
    Sewn rest (CreatorSynth.separatedBy commaPieces (items.map item)) (items.flatMap inner) :=
  .separatedBy Breaks breaks each (fun _ _ _ => comma) fun _ _ => breaks_symbol .comma _ _

theorem plainItems {α : Type} {items : List α}
    (sewn : Sewn rest pieces (items.flatMap fun _ => [])) : Sewn rest pieces [] := by
  rwa [List.flatMap_eq_nil_iff.mpr fun _ _ => rfl] at sewn

theorem plainCommas {α : Type} {item : α → List Piece} {items : List α} (breaks : Breaks rest)
    (each : ∀ a ∈ items, ∀ rest, Breaks rest → Sewn rest (item a) []) :
    Sewn rest (CreatorSynth.separatedBy commaPieces (items.map item)) [] :=
  plainItems (commas breaks each)

end Sewn

theorem sewn_dottedPieces {name : String} (words : ∀ s ∈ segments name, IsWord s)
    (breaks : Breaks rest) : Sewn rest (dottedPieces name) [] := by
  refine Sewn.plainItems (.separatedBy Breaks breaks (fun s member rest breaks => ?_)
    (fun s member rest => ?_) fun pieces rest => breaks_symbol .dot _ _)
  · exact .word (words s member) breaks .nil
  · refine .plain (plain_symbol .dot) (.inl (stands_symbol fun _ => ?_)) .nil
    rw [List.flatMap_nil, List.nil_append, List.flatMap_singleton, text_word]
    exact not_dots_of_isWord (words s member) rest

theorem breaks_dimensionPieces (dims : Nat) (breaks : Breaks rest) :
    Breaks ((dimensionPieces dims).flatMap text ++ rest) := by
  cases dims with
  | zero => exact breaks
  | succ dims => exact breaks_symbol .lbracket _ _

theorem sewn_dimensionPieces (dims : Nat) : Sewn rest (dimensionPieces dims) [] := by
  induction dims with
  | zero => exact .nil
  | succ dims ih => exact .symbol nofun (.symbol nofun ih)

theorem breaks_listPieces (args : List TypeArg) (breaks : Breaks rest) :
    Breaks ((TypeArg.listPieces args).flatMap text ++ rest) := by
  cases args with
  | nil => exact breaks
  | cons a as => exact breaks_symbol .langle _ _

theorem breaks_morePieces (args : List TypeArg) :
    Breaks ((TypeArg.morePieces args ++ [token (.symbol .rangle)]).flatMap text ++ rest) := by
  cases args with
  | nil => exact breaks_symbol .rangle _ _
  | cons a as => exact breaks_symbol .comma _ _

mutual
theorem sewn_typeRef {rest : List Char} : (t : TypeRef) → t.Worded → Breaks rest →
    Sewn rest t.pieces []
  | ⟨name, args, dims⟩, worded, breaks => by
    rw [TypeRef.Worded, TypeRef.names] at worded
    have behind := breaks_dimensionPieces dims breaks
    have front : Breaks ((TypeArg.listPieces args ++ dimensionPieces dims).flatMap text ++ rest) := by
      rw [List.flatMap_append, List.append_assoc]
      exact breaks_listPieces args behind
    exact (sewn_dottedPieces (worded name List.mem_cons_self).isWord front).append
      ((sewn_listPieces args fun name member => worded name (List.mem_cons_of_mem _ member)).append
        (sewn_dimensionPieces dims))

theorem sewn_typeArg {rest : List Char} : (a : TypeArg) → (∀ name ∈ a.names, IsPath name) →
    Breaks rest → Sewn rest a.pieces []
  | .type t, worded, breaks => sewn_typeRef t worded breaks
  | .any, _, _ => .symbol nofun .nil
  | .extending t, worded, breaks =>
    .symbol nofun (.space (.keyword (breaks_space _ _) (.space (sewn_typeRef t worded breaks))))
  | .superOf t, worded, breaks =>
    .symbol nofun (.space (.keyword (breaks_space _ _) (.space (sewn_typeRef t worded breaks))))

theorem sewn_listPieces {rest : List Char} : (args : List TypeArg) →
    (∀ name ∈ TypeArg.namesOfAll args, IsPath name) → Sewn rest (TypeArg.listPieces args) []
  | [], _ => .nil
  | a :: as, worded => by
    rw [TypeArg.namesOfAll] at worded
    have behind : Breaks (_ ++ rest) := breaks_morePieces as
    have here := sewn_typeArg a (fun name member => worded name (List.mem_append_left _ member))
      behind
    have more := sewn_morePieces as
      (fun name member => worded name (List.mem_append_right _ member)) (breaks_symbol .rangle [] rest)
    exact .symbol nofun (here.append (more.append (.symbol nofun .nil)))

theorem sewn_morePieces {rest : List Char} : (args : List TypeArg) →
    (∀ name ∈ TypeArg.namesOfAll args, IsPath name) → Breaks rest →
    Sewn rest (TypeArg.morePieces args) []
  | [], _, _ => .nil
  | a :: as, worded, breaks => by
    rw [TypeArg.namesOfAll] at worded
    have behind : Breaks ((TypeArg.morePieces as).flatMap text ++ rest) := by
      cases as with
      | nil => exact breaks
      | cons b bs => exact breaks_symbol .comma _ _
    have here := sewn_typeArg a (fun name member => worded name (List.mem_append_left _ member))
      behind
    exact .symbol nofun (.space (here.append (sewn_morePieces as
      (fun name member => worded name (List.mem_append_right _ member)) breaks)))
end

theorem sewn_annotationPieces {a : Annotation} (readable : a.Readable) (breaks : Breaks rest) :
    Sewn rest a.pieces a.raws := by
  have name := readable.name.isWord
  unfold Annotation.pieces Annotation.raws
  cases given : a.args with
  | none => exact .symbol nofun (.onto (sewn_dottedPieces name breaks) .nil)
  | some args =>
    have closing : Seam (([token (.symbol .rparen)] : List Piece).flatMap text ++ rest) := by
      intro c same
      cases same
      decide
    have inner : Sewn rest (rawPieces args ++ [token (.symbol .rparen)]) [rawPieces args] :=
      .raw (readable.args args given).raw.raw closing (.symbol nofun .nil)
    exact .symbol nofun (.onto (sewn_dottedPieces name (breaks_symbol .lparen _ _))
      (.symbol nofun inner))

theorem sewn_keywords {words : List String}
    (known : ∀ word ∈ words, isModifierKeyword word = true) :
    Sewn rest (words.flatMap fun word => [token (.name word), .gap [' ']]) [] := by
  induction words with
  | nil => exact .nil
  | cons word others ih =>
    obtain ⟨here, known⟩ := List.forall_mem_cons.mp known
    exact .name (isName_of_isModifierKeyword here) (breaks_space _ _) (.space (ih known))

theorem sewn_modifiers {blank : Char} (gapChar : isGapChar blank = true) {m : Modifiers}
    (readable : m.Readable) : Sewn rest (m.pieces blank) m.raws := by
  have all : ([blank] : List Char).all isGapChar = true := by simp [gapChar]
  have annotations {rest : List Char} :
      Sewn rest (m.annotations.flatMap fun a => a.pieces ++ [.gap [blank]]) m.raws := by
    have each := readable.annotations
    unfold Modifiers.raws
    generalize m.annotations = annotations at each
    induction annotations with
    | nil => exact .nil
    | cons a others ih =>
      obtain ⟨here, each⟩ := List.forall_mem_cons.mp each
      have first {rest : List Char} : Sewn rest (a.pieces ++ [.gap [blank]]) a.raws :=
        .followed (sewn_annotationPieces here (breaks_gap (List.cons_ne_nil _ _) all [] rest))
          (.gap all .nil)
      exact first.append (ih each)
  exact annotations.followed (sewn_keywords readable.keywords)

theorem sewn_typeParam {p : TypeParam} (readable : p.Readable) (breaks : Breaks rest) :
    Sewn rest p.pieces [] := by
  unfold TypeParam.pieces
  split
  · exact .word readable.name breaks .nil
  · have bounds : Sewn rest (separatedBy ampersandPieces (p.bounds.map TypeRef.pieces)) [] := by
      refine Sewn.plainItems (.separatedBy Breaks breaks
        (fun t member _ breaks => sewn_typeRef t (readable.bounds t member) breaks)
        (fun _ _ _ => .space (.symbol nofun (.space .nil))) fun _ _ => ?_)
      exact breaks_space _ _
    exact .word readable.name (breaks_space _ _) (.space (.keyword (breaks_space _ _)
      (.space bounds)))

theorem sewn_typeParamPieces {params : List TypeParam} (readable : ∀ p ∈ params, p.Readable) :
    Sewn rest (typeParamPieces params) [] := by
  unfold typeParamPieces
  split
  · exact .nil
  · refine .symbol nofun (.onto ?_ (.symbol nofun (.space .nil)))
    exact .plainCommas (breaks_symbol .rangle _ _) fun p member _ breaks =>
      sewn_typeParam (readable p member) breaks

theorem sewn_param {p : Param} (readable : p.Readable) (breaks : Breaks rest) :
    Sewn rest p.pieces p.raws := by
  have named : Sewn rest [.gap [' '], token (wordToken p.name)] [] :=
    .space (.word readable.name breaks .nil)
  have typed : Sewn rest (p.type.pieces ++ ((if p.varargs then [token (.symbol .ellipsis)] else []) ++
      [.gap [' '], token (wordToken p.name)])) [] := by
    cases p.varargs with
    | true =>
      exact .onto (sewn_typeRef p.type readable.type (breaks_symbol .ellipsis _ _))
        (.symbol nofun named)
    | false => exact .onto (sewn_typeRef p.type readable.type (breaks_space _ _)) named
  exact .followed (sewn_modifiers (by decide) readable.modifiers) typed

theorem sewn_throwsPieces {throws : List TypeRef} (worded : ∀ t ∈ throws, t.Worded)
    (breaks : Breaks rest) : Sewn rest (throwsPieces throws) [] := by
  unfold throwsPieces
  split
  · exact .nil
  · exact .space (.keyword (breaks_space _ _) (.space (.plainCommas breaks
      fun t member _ breaks => sewn_typeRef t (worded t member) breaks)))

theorem sewn_returnPieces {type : Option TypeRef} (worded : ∀ t ∈ type, t.Worded) :
    Sewn rest (returnPieces type) [] := by
  cases type with
  | none => exact .nil
  | some t => exact (sewn_typeRef t (worded t rfl) (breaks_space _ _)).append (.space .nil)

theorem sewn_piecesWith {className : String} {m : MethodDecl} (readable : m.Readable className)
    {body : List Piece} (breaks : Breaks (body.flatMap text ++ rest)) (sewn : Sewn rest body raws) :
    Sewn rest (m.piecesWith body) (m.modifiers.raws ++ (m.params.flatMap Param.raws ++ raws)) := by
  have ending : Sewn rest (token (.symbol .rparen) :: (throwsPieces m.throws ++ body)) raws :=
    .symbol nofun (.onto (sewn_throwsPieces readable.throws breaks) sewn)
  have params : Sewn rest (m.restPieces body) (m.params.flatMap Param.raws ++ raws) :=
    .symbol nofun (.append (.commas (breaks_symbol .rparen _ _) fun p member _ breaks =>
      sewn_param (readable.params p member) breaks) ending)
  have named : Sewn rest (m.namedPieces body) (m.params.flatMap Param.raws ++ raws) :=
    .onto (sewn_returnPieces readable.returnType)
      (.word readable.name (breaks_symbol .lparen _ _) params)
  exact (sewn_modifiers (by decide) readable.modifiers).append
    (.onto (sewn_typeParamPieces readable.typeParams) named)

section Constructors

theorem sewn_namePieces {names : List String} (proper : ∀ name ∈ names, IsIdentifier name)
    (breaks : Breaks rest) : Sewn rest (namePieces names) [] := by
  have each : ∀ name ∈ names, IsName name := fun name member => (proper name member).isName
  refine .of_allStand (allStand_namePieces each breaks) ?_
  clear proper
  fun_induction namePieces names with
  | case1 => exact fun p member => absurd member List.not_mem_nil
  | case2 s =>
    rw [← wordToken_of_isName (each s List.mem_cons_self)]
    exact List.forall_mem_singleton.mpr (plain_word (.inl (each s List.mem_cons_self)))
  | case3 s names more ih =>
    rw [← wordToken_of_isName (each s List.mem_cons_self)]
    have others := ih fun other member => each other (List.mem_cons_of_mem _ member)
    simpa [plain_word (.inl (each s List.mem_cons_self)), plain_symbol, plain_space] using others

theorem sewn_terminatorPieces (d : Dialect) : Sewn rest d.terminatorPieces [] := by
  cases d with
  | java => exact .symbol nofun .nil
  | groovy => exact .nil

theorem sewn_callPieces {word : Keyword} {d : Dialect} {names : List String}
    (proper : ∀ name ∈ names, IsIdentifier name) : Sewn rest (callPieces word d names) [] :=
  .keyword (breaks_symbol .lparen _ _) (.symbol nofun (.onto
    (sewn_namePieces proper (breaks_symbol .rparen _ _)) (.symbol nofun (sewn_terminatorPieces d))))

theorem sewn_statement {s : Statement} (spelled : s.Spelled) (d : Dialect) (rest : List Char) :
    Sewn ('\n' :: rest) (s.pieces d) [] := by
  cases s with
  | superCall args span | thisCall args span => exact sewn_callPieces spelled
  | assign qualified field value span =>
    have proper : (BodyLine.assign qualified field value).Proper :=
      ⟨spelled.1.isName, spelled.2.isName⟩
    refine .of_allStand (BodyLine.allStand proper rest) ?_
    have field := plain_word (.inl spelled.1.isName)
    have value := plain_word (.inl spelled.2.isName)
    rw [wordToken_of_isName spelled.1.isName] at field
    rw [wordToken_of_isName spelled.2.isName] at value
    have ends : ∀ p ∈ d.terminatorPieces, p.Plain := by
      cases d <;> decide
    cases qualified <;>
      simpa [Statement.pieces, BodyLine.pieces, field, value, plain_symbol, plain_space,
        plain_keyword] using ends
  | other text span => cases spelled

theorem exists_statementPieces_text (d : Dialect) (statements : List Statement) :
    ∃ cs, (statementPieces d statements).flatMap text = '\n' :: cs := by
  cases statements with
  | nil => exact ⟨_, rfl⟩
  | cons s others => exact ⟨_, rfl⟩

theorem sewn_statementPieces {d : Dialect} {statements : List Statement}
    (spelled : ∀ s ∈ statements, s.Spelled) : Sewn rest (statementPieces d statements) [] := by
  induction statements with
  | nil => exact .gap (by decide) (.symbol nofun .nil)
  | cons s others ih =>
    obtain ⟨here, spelled⟩ := List.forall_mem_cons.mp spelled
    obtain ⟨cs, shape⟩ := exists_statementPieces_text d others
    refine .gap (by decide) (.onto ?_ (ih spelled))
    rw [shape]
    exact sewn_statement here d _

theorem not_leavesOpen_of_shut {closer : List Char} (shut : Shut pieces) :
    ¬ LeavesOpen closer pieces := by
  rintro ⟨front, piece, back, rfl, opens, _⟩
  rw [shut.right.1] at opens
  cases opens

theorem unclosed_annotations {className : String} {m : MethodDecl} (spelled : m.Spelled className)
    (closed : m.Closed) : Unclosed (m.annotations.flatMap Annotation.raws) := by
  have each : ∀ a ∈ m.annotations, a.Spelled := by
    intro a member
    rcases List.mem_append.mp member with own | inner
    · exact spelled.modifiers.annotations a own
    · obtain ⟨p, among, inside⟩ := List.mem_flatMap.mp inner
      exact (spelled.params p among).modifiers.annotations a inside
  refine List.pairwise_flatMap.mpr ⟨fun a _ => ?_, ?_⟩
  · unfold Annotation.raws
    cases a.args <;> simp
  refine List.Pairwise.imp_of_mem (fun {a b} first second pair => ?_) closed
  intro raw own later other closer opened
  simp only [Option.mem_toList, Option.map_eq_some_iff, Annotation.raws] at own other
  obtain ⟨args, given, rfl⟩ := own
  obtain ⟨args', given', rfl⟩ := other
  have proper := (each a first).args args given
  have readable := (isArguments_of_text proper).raw
  rw [(isArguments_of_text ((each b second).args args' given')).raw.whole]
  rcases pair with shut | closes
  · obtain ⟨pieces, cuts, shut⟩ := shut args given
    rw [rawPieces, cuts] at opened
    exact absurd opened (not_leavesOpen_of_shut shut)
  · obtain ⟨front, piece, back, split, opens, known⟩ := opened
    rcases opens_cases opens with ⟨rfl, cs, shape⟩ | ⟨rfl, _⟩
    · refine absurd ?_ proper.blockComment
      rw [← readable.whole, split, List.flatMap_append, List.flatMap_cons, shape]
      exact ⟨front.flatMap text, cs, by simp [text, Token.text]⟩
    · cases known
      exact closes args' given'

theorem fit_methodDecl {className : String} {m : MethodDecl} (spelled : m.Spelled className)
    (closed : m.Closed) (d : Dialect) : Fit (m.pieces d) [] := by
  have body : Sewn [] (.gap [' '] :: token (.symbol .lbrace) :: statementPieces d m.statements) [] :=
    .space (.symbol nofun (sewn_statementPieces spelled.statements))
  have sewn := sewn_piecesWith spelled.readable (breaks_space _ _) body
  have raws : m.modifiers.raws ++ (m.params.flatMap Param.raws ++ []) =
      m.annotations.flatMap Annotation.raws := by
    rw [MethodDecl.annotations, List.flatMap_append, List.flatMap_assoc, List.append_nil]
    rfl
  rw [raws] at sewn
  exact sewn.fit_nil (unclosed_annotations spelled closed)

end Constructors

end Piece

theorem MethodDecl.tokenize_text {className : String} {m : MethodDecl}
    (spelled : m.Spelled className) (closed : m.Closed) (d : Dialect) :
    tokenize (m.text d) = .ok (Piece.locate 0 ((m.printed d).pieces d)) := by
  have cuts := Piece.tokenize_of_fit (Piece.fit_methodDecl (spelled.printed d) closed d)
  rwa [MethodDecl.flatMap_text_pieces spelled, String.ofList_toList] at cuts

end CreatorSynth
