import CreatorSynth.Printer
import CreatorSynth.Proofs.Creator.Body
import CreatorSynth.Proofs.Parser.Taking
import CreatorSynth.Proofs.Printer.Readable
import CreatorSynth.Proofs.Text.Dotted

/-! A printed constructor piece by piece. -/
namespace CreatorSynth
open Text

def commaPieces : List Piece :=
  [.token (.symbol .comma), .gap [' ']]

def ampersandPieces : List Piece :=
  [.gap [' '], .token (.symbol .ampersand), .gap [' ']]

/-- A dotted name. -/
def dottedPieces (name : String) : List Piece :=
  separatedBy [.token (.symbol .dot)] ((segments name).map fun s => [.token (wordToken s)])

def dimensionPieces (dims : Nat) : List Piece :=
  (List.replicate dims [.token (.symbol .lbracket), .token (.symbol .rbracket)]).flatten

theorem dottedPieces_of_dotFree {s : String} (clean : DotFree s) :
    dottedPieces s = [.token (wordToken s)] := by
  rw [dottedPieces, segments_of_dotFree clean]
  rfl

mutual
def TypeRef.pieces : TypeRef → List Piece
  | ⟨name, args, dims⟩ => dottedPieces name ++ (TypeArg.listPieces args ++ dimensionPieces dims)

def TypeArg.pieces : TypeArg → List Piece
  | .type t => t.pieces
  | .any => [.token (.symbol .question)]
  | .extending t =>
      .token (.symbol .question) :: .gap [' '] :: .token (.keyword .extendsWord) :: .gap [' '] ::
        t.pieces
  | .superOf t =>
      .token (.symbol .question) :: .gap [' '] :: .token (.keyword .superWord) :: .gap [' '] ::
        t.pieces

def TypeArg.listPieces : List TypeArg → List Piece
  | [] => []
  | a :: as =>
      .token (.symbol .langle) ::
        (a.pieces ++ (TypeArg.morePieces as ++ [.token (.symbol .rangle)]))

def TypeArg.morePieces : List TypeArg → List Piece
  | [] => []
  | a :: as => commaPieces ++ (a.pieces ++ TypeArg.morePieces as)
end

theorem TypeRef.pieces_simple (name : String) : (simple name).pieces = dottedPieces name :=
  List.append_nil _

/-- The arguments of an annotation, as the lexer cuts them. -/
def argumentPieces : Option String → List Piece
  | none => []
  | some args =>
      .token (.symbol .lparen) :: (rawPieces args ++ [.token (.symbol .rparen)])

def Annotation.pieces (a : Annotation) : List Piece :=
  .token (.symbol .atSign) :: (dottedPieces a.name ++ argumentPieces a.args)

/-- Annotations, each with that blank behind it, and modifier words. -/
def Modifiers.pieces (blank : Char) (m : Modifiers) : List Piece :=
  m.annotations.flatMap (fun a => a.pieces ++ [.gap [blank]]) ++
    m.keywords.flatMap fun word => [.token (.name word), .gap [' ']]

def TypeParam.pieces (p : TypeParam) : List Piece :=
  .token (wordToken p.name) ::
    if p.bounds.isEmpty then []
    else .gap [' '] :: .token (.keyword .extendsWord) :: .gap [' '] ::
      separatedBy ampersandPieces (p.bounds.map TypeRef.pieces)

def typeParamPieces (params : List TypeParam) : List Piece :=
  if params.isEmpty then []
  else .token (.symbol .langle) :: (separatedBy commaPieces (params.map TypeParam.pieces) ++
    [.token (.symbol .rangle), .gap [' ']])

def Param.pieces (p : Param) : List Piece :=
  p.modifiers.pieces ' ' ++ (p.type.pieces ++
    ((if p.varargs then [.token (.symbol .ellipsis)] else []) ++
      [.gap [' '], .token (wordToken p.name)]))

/-- What a method returns, in front of its name. -/
def returnPieces : Option TypeRef → List Piece
  | none => []
  | some t => t.pieces ++ [.gap [' ']]

def throwsPieces (throws : List TypeRef) : List Piece :=
  if throws.isEmpty then []
  else .gap [' '] :: .token (.keyword .throwsWord) :: .gap [' '] ::
    separatedBy commaPieces (throws.map TypeRef.pieces)

/-- A call of a constructor, a statement of its own. -/
def callPieces (word : Keyword) (d : Dialect) (names : List String) : List Piece :=
  .token (.keyword word) :: .token (.symbol .lparen) ::
    (namePieces names ++ .token (.symbol .rparen) :: d.terminatorPieces)

/-- Statements other than raw text. -/
def Statement.pieces (d : Dialect) : Statement → List Piece
  | superCall args _ => callPieces .superWord d args
  | thisCall args _ => callPieces .thisWord d args
  | assign qualified field value _ => (BodyLine.assign qualified field value).pieces d
  | other _ _ => []

/-- What stands behind the brace that opens a body. -/
def statementPieces (d : Dialect) : List Statement → List Piece
  | [] => [.gap ['\n'], .token (.symbol .rbrace)]
  | s :: ss => .gap ('\n' :: indentUnit.toList) :: (s.pieces d ++ statementPieces d ss)

def MethodDecl.statements (m : MethodDecl) : List Statement :=
  (m.body.map (·.statements)).getD []

theorem MethodDecl.Spelled.statements {className : String} {m : MethodDecl}
    (spelled : m.Spelled className) : ∀ s ∈ m.statements, s.Spelled := by
  obtain ⟨body, given, each⟩ := spelled.body
  rw [MethodDecl.statements, given]
  exact each

/-- A method or constructor from its parameters on. -/
def MethodDecl.restPieces (m : MethodDecl) (body : List Piece) : List Piece :=
  .token (.symbol .lparen) :: (separatedBy commaPieces (m.params.map Param.pieces) ++
    .token (.symbol .rparen) :: (throwsPieces m.throws ++ body))

/-- A method or constructor behind its type parameters. -/
def MethodDecl.namedPieces (m : MethodDecl) (body : List Piece) : List Piece :=
  returnPieces m.returnType ++ .token (wordToken m.name) :: m.restPieces body

/-- A method or constructor with that body, without documentation. -/
def MethodDecl.piecesWith (m : MethodDecl) (body : List Piece) : List Piece :=
  m.modifiers.pieces '\n' ++ (typeParamPieces m.typeParams ++ m.namedPieces body)

/-- A constructor without documentation. -/
def MethodDecl.pieces (d : Dialect) (m : MethodDecl) : List Piece :=
  m.piecesWith (.gap [' '] :: .token (.symbol .lbrace) :: statementPieces d m.statements)

/-- What of a declaration is printed: in Groovy the word for public access is left out. -/
def MethodDecl.printed (d : Dialect) (m : MethodDecl) : MethodDecl :=
  { m with modifiers := { m.modifiers with
      keywords := m.modifiers.keywords.filter fun word => !(d == .groovy && word == "public") } }

theorem MethodDecl.printed_java (m : MethodDecl) : m.printed .java = m := by
  simp [printed, show (Dialect.java == Dialect.groovy) = false from rfl]

section Text

theorem flatMap_text_separatedBy {α : Type} {separator : List Piece} {between : String}
    {pieces : α → List Piece} {text : α → String} {items : List α}
    (same : separator.flatMap Piece.text = between.toList)
    (each : ∀ item ∈ items, (pieces item).flatMap Piece.text = (text item).toList) :
    (separatedBy separator (items.map pieces)).flatMap Piece.text =
      (between.intercalate (items.map text)).toList := by
  induction items with
  | nil => rfl
  | cons first others ih =>
    have here := each first List.mem_cons_self
    have behind := ih fun item member => each item (List.mem_cons_of_mem _ member)
    cases others with
    | nil => simp [separatedBy, here]
    | cons second others =>
      have split : (first :: second :: others).map text =
          text first :: (second :: others).map text := rfl
      rw [split, String.intercalate_cons_of_ne_nil (by simp), String.toList_append,
        String.toList_append, ← behind]
      simp only [List.map_cons, separatedBy, List.flatMap_append, List.flatMap_cons, here, same,
        List.append_assoc]

theorem flatMap_text_dottedPieces (name : String) :
    (dottedPieces name).flatMap Piece.text = name.toList := by
  have text : (dottedPieces name).flatMap Piece.text =
      (".".intercalate ((segments name).map id)).toList :=
    flatMap_text_separatedBy rfl fun s _ => by simp
  rw [text, List.map_id]
  exact congrArg String.toList (joinSegments_segments name)

theorem flatMap_text_dimensionPieces (dims : Nat) :
    (dimensionPieces dims).flatMap Piece.text = (repeated dims "[]").toList := by
  induction dims with
  | zero => rfl
  | succ dims ih =>
    rw [dimensionPieces, List.replicate_succ, List.flatten_cons, List.flatMap_append,
      ← dimensionPieces, ih]
    simp [repeated, List.replicate_succ, Piece.text, Token.text, Symbol.text]

mutual
theorem TypeRef.flatMap_text_pieces :
    (t : TypeRef) → t.pieces.flatMap Piece.text = t.text.toList
  | ⟨name, args, dims⟩ => by
    simp only [TypeRef.pieces, TypeRef.text, List.flatMap_append, flatMap_text_dottedPieces,
      flatMap_text_dimensionPieces, TypeArg.flatMap_text_listPieces args, String.toList_append,
      List.append_assoc]

theorem TypeArg.flatMap_text_pieces :
    (a : TypeArg) → a.pieces.flatMap Piece.text = a.text.toList
  | .type t => by rw [TypeArg.pieces, TypeArg.text, TypeRef.flatMap_text_pieces t]
  | .any => rfl
  | .extending t => by
    simp [TypeArg.pieces, TypeArg.text, TypeRef.flatMap_text_pieces t, Piece.text, Token.text,
      Symbol.text, Keyword.text]
  | .superOf t => by
    simp [TypeArg.pieces, TypeArg.text, TypeRef.flatMap_text_pieces t, Piece.text, Token.text,
      Symbol.text, Keyword.text]

theorem TypeArg.flatMap_text_listPieces :
    (args : List TypeArg) → (TypeArg.listPieces args).flatMap Piece.text =
      (TypeArg.listText args).toList
  | [] => rfl
  | a :: as => by
    simp [TypeArg.listPieces, TypeArg.listText, TypeArg.flatMap_text_pieces a,
      TypeArg.flatMap_text_morePieces as, Piece.text, Token.text, Symbol.text]

theorem TypeArg.flatMap_text_morePieces :
    (args : List TypeArg) → (TypeArg.morePieces args).flatMap Piece.text =
      (TypeArg.moreText args).toList
  | [] => rfl
  | a :: as => by
    simp [TypeArg.morePieces, TypeArg.moreText, TypeArg.flatMap_text_pieces a,
      TypeArg.flatMap_text_morePieces as, commaPieces, Piece.text, Token.text, Symbol.text]
end

theorem Annotation.flatMap_text_pieces {a : Annotation} (readable : a.Readable) :
    a.pieces.flatMap Piece.text = a.text.toList := by
  cases given : a.args with
  | none =>
    simp [argumentPieces, Annotation.pieces, Annotation.text, given,
      flatMap_text_dottedPieces, Piece.text, Token.text, Symbol.text]
  | some args =>
    have whole := (readable.args args given).raw.whole
    simp [argumentPieces, Annotation.pieces, Annotation.text, given, whole,
      flatMap_text_dottedPieces, Piece.text, Token.text, Symbol.text]

theorem Modifiers.flatMap_text_pieces {m : Modifiers} (readable : m.Readable) (blank : Char) :
    (m.pieces blank).flatMap Piece.text =
      (String.join (m.annotations.map fun a => a.text ++ String.ofList [blank]) ++
        String.join (m.keywords.map (· ++ " "))).toList := by
  have annotations : (m.annotations.flatMap fun a => a.pieces ++ [.gap [blank]]).flatMap
      Piece.text =
        (String.join (m.annotations.map fun a => a.text ++ String.ofList [blank])).toList := by
    have each := readable.annotations
    generalize m.annotations = annotations at each
    induction annotations with
    | nil => rfl
    | cons a others ih =>
      simp [Piece.text, Annotation.flatMap_text_pieces (each a List.mem_cons_self),
        ih fun other member => each other (List.mem_cons_of_mem _ member)]
  have keywords : (m.keywords.flatMap fun word => [.token (.name word), .gap [' ']]).flatMap
      Piece.text = (String.join (m.keywords.map (· ++ " "))).toList := by
    induction m.keywords with
    | nil => rfl
    | cons word others ih =>
      simp [ih, Piece.text, Token.text]
  rw [Modifiers.pieces, List.flatMap_append, annotations, keywords, String.toList_append]

theorem TypeParam.flatMap_text_pieces (p : TypeParam) :
    p.pieces.flatMap Piece.text = p.text.toList := by
  have bounds : (separatedBy ampersandPieces (p.bounds.map TypeRef.pieces)).flatMap Piece.text =
      (" & ".intercalate (p.bounds.map TypeRef.text)).toList :=
    flatMap_text_separatedBy rfl fun t _ => t.flatMap_text_pieces
  rw [TypeParam.pieces, List.flatMap_cons, Piece.text_word, TypeParam.text]
  split <;> simp [bounds, Piece.text, Token.text, Keyword.text]

theorem flatMap_text_typeParamPieces (params : List TypeParam) :
    (typeParamPieces params).flatMap Piece.text =
      (if params.isEmpty then ""
        else "<" ++ ", ".intercalate (params.map TypeParam.text) ++ "> ").toList := by
  have items : (separatedBy commaPieces (params.map TypeParam.pieces)).flatMap Piece.text =
      (", ".intercalate (params.map TypeParam.text)).toList :=
    flatMap_text_separatedBy rfl fun p _ => p.flatMap_text_pieces
  unfold typeParamPieces
  split <;> simp [items, Piece.text, Token.text, Symbol.text]

theorem Param.flatMap_text_pieces {p : Param} (readable : p.Readable) :
    p.pieces.flatMap Piece.text = p.text.toList := by
  rw [Param.pieces, List.flatMap_append, Modifiers.flatMap_text_pieces readable.modifiers,
    Param.text]
  simp only [List.flatMap_append, List.flatMap_cons, Piece.text_word]
  cases p.varargs <;>
    simp [TypeRef.flatMap_text_pieces, Piece.text, Token.text, Symbol.text]

theorem flatMap_text_throwsPieces (throws : List TypeRef) :
    (throwsPieces throws).flatMap Piece.text =
      (if throws.isEmpty then ""
        else " throws " ++ ", ".intercalate (throws.map TypeRef.text)).toList := by
  have items : (separatedBy commaPieces (throws.map TypeRef.pieces)).flatMap Piece.text =
      (", ".intercalate (throws.map TypeRef.text)).toList :=
    flatMap_text_separatedBy rfl fun t _ => t.flatMap_text_pieces
  unfold throwsPieces
  split <;> simp [items, Piece.text, Token.text, Keyword.text]

theorem Statement.flatMap_text_pieces {s : Statement} (spelled : s.Spelled) (d : Dialect) :
    (s.pieces d).flatMap Piece.text = (s.text d).toList := by
  cases s with
  | superCall args span | thisCall args span =>
    simp [Statement.pieces, Statement.text, callPieces, flatMap_text_namePieces,
      flatMap_text_terminatorPieces, Piece.text, Token.text, Keyword.text, Symbol.text]
  | assign qualified field value span =>
    exact BodyLine.flatMap_text_pieces d (.assign qualified field value)
  | other text span => cases spelled

theorem flatMap_text_statementPieces {statements : List Statement}
    (spelled : ∀ s ∈ statements, s.Spelled) (d : Dialect) :
    (statementPieces d statements).flatMap Piece.text = '\n' ::
      (String.join (statements.map fun s => indentUnit ++ s.text d ++ "\n")).toList ++ ['}'] := by
  induction statements with
  | nil => rfl
  | cons s others ih =>
    simp [statementPieces, Statement.flatMap_text_pieces (spelled s List.mem_cons_self), Piece.text,
      ih fun other member => spelled other (List.mem_cons_of_mem _ member)]

theorem MethodDecl.Spelled.printed {className : String} {m : MethodDecl}
    (spelled : m.Spelled className) (d : Dialect) : (m.printed d).Spelled className :=
  { spelled with
    modifiers := ⟨fun word member => spelled.modifiers.keywords word (List.mem_filter.mp member).1,
      spelled.modifiers.annotations⟩ }

theorem MethodDecl.Readable.printed {className : String} {m : MethodDecl}
    (readable : m.Readable className) (d : Dialect) : (m.printed d).Readable className :=
  { readable with
    modifiers := ⟨fun word member => readable.modifiers.keywords word (List.mem_filter.mp member).1,
      readable.modifiers.annotations⟩ }

theorem flatMap_text_returnPieces (type : Option TypeRef) :
    (returnPieces type).flatMap Piece.text =
      ((type.map fun t => t.text ++ " ").getD "").toList := by
  cases type with
  | none => rfl
  | some t => simp [returnPieces, TypeRef.flatMap_text_pieces, Piece.text]

/-- The text of a method or constructor is that of its pieces if that of its body is. -/
theorem MethodDecl.flatMap_text_piecesWith {className : String} {m : MethodDecl}
    (readable : m.Readable className) (d : Dialect) {body : List Piece}
    (same : body.flatMap Piece.text = (match m.body with
      | some body => body.text d indentUnit
      | none => d.terminator).toList) :
    ((m.printed d).piecesWith body).flatMap Piece.text = (m.text d).toList := by
  have params : (separatedBy commaPieces (m.params.map Param.pieces)).flatMap Piece.text =
      (", ".intercalate (m.params.map Param.text)).toList :=
    flatMap_text_separatedBy rfl fun p member =>
      Param.flatMap_text_pieces (readable.params p member)
  have front := Modifiers.flatMap_text_pieces (readable.printed d).modifiers '\n'
  have typeParams := flatMap_text_typeParamPieces m.typeParams
  have throws := flatMap_text_throwsPieces m.throws
  have returned := flatMap_text_returnPieces m.returnType
  rw [MethodDecl.piecesWith, List.flatMap_append, front]
  simp only [MethodDecl.printed, MethodDecl.namedPieces, MethodDecl.restPieces,
    List.flatMap_append, List.flatMap_cons, Piece.text_word, typeParams, params, throws, returned,
    same]
  rw [MethodDecl.text, MethodDecl.textIndented, readable.doc]
  cases m.body <;> simp [Piece.text, Token.text, Symbol.text]

theorem MethodDecl.flatMap_text_pieces {className : String} {m : MethodDecl}
    (spelled : m.Spelled className) (d : Dialect) :
    ((m.printed d).pieces d).flatMap Piece.text = (m.text d).toList := by
  obtain ⟨body, given, statements⟩ := spelled.body
  refine MethodDecl.flatMap_text_piecesWith spelled.readable d ?_
  have lines := flatMap_text_statementPieces statements d
  rw [MethodDecl.statements, MethodDecl.printed, given]
  simp only [Option.map_some, Option.getD_some, List.flatMap_cons, lines, Block.text]
  simp [Piece.text, Token.text, Symbol.text]

end Text

end CreatorSynth
