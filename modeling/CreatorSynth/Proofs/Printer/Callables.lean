import CreatorSynth.Proofs.Creator.ReadBack
import CreatorSynth.Proofs.Printer.Params

/-! A printed method or constructor is read back in front of any body that is. -/
namespace CreatorSynth
open Text

def Block.unspanned (b : Block) : Block :=
  ⟨b.statements.map Statement.unspanned, Span.none⟩

/-- A declaration without the places it and its parts were read from. -/
def MethodDecl.unspanned (m : MethodDecl) : MethodDecl :=
  { m with
    modifiers := m.modifiers.unspanned
    params := m.params.map Param.unspanned
    body := m.body.map Block.unspanned
    span := Span.none }

/-- What is declared in front of the body. -/
def MethodDecl.bodiless (m : MethodDecl) : MethodDecl :=
  { m.unspanned with body := none }

theorem MethodDecl.unspanned_eq (m : MethodDecl) :
    m.unspanned = { m.bodiless with body := m.body.map Block.unspanned } :=
  rfl

/-- The member that the declaration is. -/
def MethodDecl.member (m : MethodDecl) : Member :=
  if m.isConstructor then .constructor m else .method m

namespace Parser
open Piece

variable {src : Source} {more : List Piece}

theorem tokens_typeRef_cases (t : TypeRef) (more : List Piece) :
    ∃ first ∈ (segments t.name).head?,
      (t = .simple first ∧ tokens (t.pieces ++ more) = wordToken first :: tokens more) ∨
        ∃ s ts, s ∈ [Symbol.dot, .langle, .lbracket] ∧
          tokens (t.pieces ++ more) = wordToken first :: .symbol s :: ts := by
  obtain ⟨name, args, dims⟩ := t
  obtain ⟨first, others, split, shape⟩ := exists_dottedPieces name
  rw [TypeRef.pieces, shape]
  refine ⟨first, by rw [split]; rfl, ?_⟩
  cases others with
  | cons s others => exact .inr ⟨.dot, _, by simp, (tokens_word first _).trans rfl⟩
  | nil =>
    have same : first = name := by
      have joined := joinSegments_segments name
      rw [split] at joined
      simpa [joinSegments] using joined
    cases args with
    | cons a as => exact .inr ⟨.langle, _, by simp, (tokens_word first _).trans rfl⟩
    | nil =>
      cases dims with
      | succ dims => exact .inr ⟨.lbracket, _, by simp, (tokens_word first _).trans rfl⟩
      | zero =>
        subst same
        exact .inl ⟨rfl, tokens_word first more⟩

section Signatures

variable {className : String} {m : MethodDecl} {body : List Piece} {B : Option Block → Prop}

/-- The first two tokens behind the type parameters. -/
structure Named (className : String) (m : MethodDecl) (first : String) (t : Token) : Prop where
  constructs : m.returnType = none → first = className ∧ t = .symbol .lparen
  returns : m.returnType ≠ none → t ≠ .symbol .lparen ∧ t ≠ .symbol .lbrace
  leads : m.typeParams = [] → isModifierKeyword first = false ∧
    (first = Keyword.recordWord.text → ∀ s, t ≠ .name s)

theorem tokens_namedPieces (readable : m.Readable className) (body more : List Piece) :
    ∃ first t ts, tokens (m.namedPieces body ++ more) = wordToken first :: t :: ts ∧
      Named className m first t := by
  have rest : ∀ more', tokens (.token (wordToken m.name) :: m.restPieces body ++ more') =
      wordToken m.name :: .symbol .lparen :: tokens ((m.restPieces body).tail ++ more') := by
    intro more'
    rw [List.cons_append, tokens_word]
    rfl
  rw [MethodDecl.namedPieces, List.append_assoc]
  have leads := readable.leads
  cases returned : m.returnType with
  | none =>
    rw [returned] at leads
    exact ⟨m.name, .symbol .lparen, _, rest more,
      fun _ => ⟨(readable.constructs returned).1, rfl⟩, fun some => absurd returned some,
      fun bare => ⟨leads bare, fun _ _ same => by cases same⟩⟩
  | some t =>
    rw [returned] at leads
    have other : m.returnType ≠ none := by simp [returned]
    have spaced : returnPieces (some t) ++ (.token (wordToken m.name) :: m.restPieces body ++ more) =
        t.pieces ++ (.gap [' '] :: (.token (wordToken m.name) :: m.restPieces body ++ more)) := by
      simp [returnPieces]
    rw [spaced]
    obtain ⟨first, head, ⟨simple, shape⟩ | ⟨s, ts, listed, shape⟩⟩ := tokens_typeRef_cases t
      (.gap [' '] :: (.token (wordToken m.name) :: m.restPieces body ++ more))
    · rw [tokens_gap, rest more] at shape
      refine ⟨_, _, _, shape, fun none => absurd none other, fun _ => ⟨by simp, by simp⟩,
        fun bare => ⟨(leads bare).1 first head, ?_⟩⟩
      intro record s same
      rw [(leads bare).2 (record ▸ simple)] at same
      cases same
    · refine ⟨first, .symbol s, ts, shape, fun none => absurd none other, fun _ => ?_,
        fun bare => ⟨(leads bare).1 first head, fun _ _ same => by cases same⟩⟩
      simp only [List.mem_cons, List.not_mem_nil, or_false] at listed
      rcases listed with rfl | rfl | rfl <;> simp

theorem endsModifiers_typedPieces (readable : m.Readable className) (body more : List Piece) :
    EndsModifiers (typeParamPieces m.typeParams ++ m.namedPieces body ++ more) := by
  cases given : m.typeParams with
  | nil =>
    obtain ⟨first, t, ts, shape, named⟩ := tokens_namedPieces readable body more
    exact .inr ⟨first, congrArg List.head? shape, (named.leads given).1⟩
  | cons p ps => exact .inl rfl

theorem beginsClass_typedPieces (readable : m.Readable className) (body more : List Piece) :
    beginsClass ((tokens (typeParamPieces m.typeParams ++ m.namedPieces body ++ more)).take 2) =
      false := by
  cases given : m.typeParams with
  | nil =>
    obtain ⟨first, t, ts, shape, named⟩ := tokens_namedPieces readable body more
    have next : (tokens (typeParamPieces [] ++ m.namedPieces body ++ more)).take 2 =
        [wordToken first, t] := congrArg (List.take 2) shape
    rw [next]
    obtain ⟨record, token⟩ | ⟨_, token⟩ := wordToken_cases first
    · rw [token]
      cases t with
      | name s => exact absurd rfl ((named.leads given).2 record s)
      | _ => rfl
    · rw [token]
      rfl
  | cons p ps => rfl

/-- A body, or what stands for none, begins with that symbol. -/
def BeginsBody (s : Symbol) : Prop :=
  s = .lbrace ∨ s = .semicolon

theorem takes_methodRest (readable : m.Readable className) {s : Symbol} (form : BeginsBody s)
    (begins : (tokens (body ++ more)).head? = some (.symbol s))
    (reads : Takes src body? body more B) (modifiers : Modifiers) (start : Nat)
    (doc : Option String) :
    Takes src (methodRest modifiers m.typeParams m.returnType m.name start doc)
      (m.restPieces body) more
      fun found => found.bodiless = { m with modifiers, doc }.bodiless ∧ B found.body := by
  have shape : m.restPieces body =
      (.token (.symbol .lparen) :: (separatedBy commaPieces (m.params.map Param.pieces) ++
        [.token (.symbol .rparen)])) ++ (throwsPieces m.throws ++ body) := by
    simp [MethodDecl.restPieces]
  rw [shape]
  refine (takes_params readable.params).bind fun params sameParams => ?_
  have bracket : (tokens (throwsPieces m.throws ++ body ++ more)).head? ≠
      some (.symbol .lbracket) := by
    cases m.throws with
    | cons t ts =>
      intro same
      cases same
    | nil =>
      intro same
      cases begins.symm.trans same
      rcases form with wrong | wrong <;> cases wrong
  refine (takes_dimensions 0 bracket).look fun _ same => ?_
  subst same
  have other : s ∉ [Symbol.langle, .dot, .lbracket, .comma] := by
    rcases form with rfl | rfl <;> decide
  refine (takes_throwsClause readable.throws other begins).bind fun _ same => ?_
  subst same
  refine reads.finish fun read known => ?_
  refine (takes_spanFrom start).finish fun _ _ => .pure ⟨?_, known⟩
  simp only [MethodDecl.bodiless, MethodDecl.unspanned, sameParams]
  congr 1
  cases m.returnType with
  | none => rfl
  | some t => rw [Option.map_some, TypeRef.array_zero]

theorem takes_typedMember (readable : m.Readable className) {s : Symbol} (form : BeginsBody s)
    (begins : (tokens (body ++ more)).head? = some (.symbol s))
    (reads : Takes src body? body more B) (modifiers : Modifiers) (start : Nat)
    (doc : Option String) :
    Takes src (typedMember className modifiers start doc)
      (typeParamPieces m.typeParams ++ m.namedPieces body) more
      fun found => ∃ read : MethodDecl, found = [read.member] ∧
        read.bodiless = { m with modifiers, doc }.bodiless ∧ B read.body := by
  obtain ⟨first, t, ts, shape, named⟩ := tokens_namedPieces readable body more
  have angle : (tokens (m.namedPieces body ++ more)).head? ≠ some (.symbol .langle) := by
    rw [shape]
    exact fun same => wordToken_ne_symbol _ _ (Option.some.inj same)
  refine (takes_typeParams readable.typeParams angle).bind fun _ same => ?_
  subst same
  refine (takes_upcoming 2).look fun _ same => ?_
  subst same
  have next : (tokens (m.namedPieces body ++ more)).take 2 = [wordToken first, t] := by
    rw [shape]
    rfl
  rw [next]
  have rest := takes_methodRest readable form begins reads modifiers start doc
  cases returned : m.returnType with
  | none =>
    obtain ⟨rfl, rfl⟩ := named.constructs returned
    obtain ⟨name, isName⟩ := readable.constructs returned
    rw [wordToken_of_isName isName, if_neg (by simp), if_pos rfl, MethodDecl.namedPieces, returned,
      returnPieces, List.nil_append, name, wordToken_of_isName isName]
    refine (takes_identifier first).step fun _ same => ?_
    subst same
    rw [returned, name] at rest
    refine rest.finish fun read known => .pure ⟨read, ?_, known⟩
    have kind := congrArg MethodDecl.returnType known.1
    rw [MethodDecl.member, MethodDecl.isConstructor, if_pos]
    simpa [MethodDecl.bodiless, MethodDecl.unspanned, returned] using kind
  | some t' =>
    obtain ⟨paren, brace⟩ := named.returns (by simp [returned])
    rw [if_neg (by simp [brace]), if_neg (by simp [paren]), MethodDecl.namedPieces, returned,
      returnPieces, List.append_assoc]
    have ends : EndsType ([.gap [' ']] ++ .token (wordToken m.name) :: m.restPieces body ++ more) := by
      refine endsType_of_head? fun s _ same => ?_
      have head : (tokens ([.gap [' ']] ++ .token (wordToken m.name) :: m.restPieces body ++
          more)).head? = some (wordToken m.name) := congrArg List.head? (tokens_word _ _)
      rw [head] at same
      exact wordToken_ne_symbol _ _ (Option.some.inj same)
    refine (takes_typeRef (readable.returnType t' returned) ends).bind fun _ same => ?_
    subst same
    refine .gap ((takes_word m.name).step fun _ same => ?_)
    subst same
    refine (takes_sees .lparen).look fun _ same => ?_
    subst same
    rw [returned] at rest
    refine rest.finish fun read known => .pure ⟨read, ?_, known⟩
    have kind := congrArg MethodDecl.returnType known.1
    rw [MethodDecl.member, MethodDecl.isConstructor, if_neg]
    simp only [MethodDecl.bodiless, MethodDecl.unspanned] at kind
    simp [kind]

theorem takes_closeDocs : Takes src closeDocs [] more fun _ => True :=
  .of_same fun {c _} _ => ⟨⟨⟩, { c with docFloor := c.lastStop }, rfl, rfl, trivial⟩

theorem takes_docBefore_none {start : Nat} (none : ∀ c, docAt src c start = none) :
    Takes src (docBefore start) [] more (· = Option.none) :=
  .of_same fun {c _} _ => ⟨_, c, by rw [on_docBefore, none], rfl, rfl⟩

theorem takes_declaredMember (readable : m.Readable className) {s : Symbol} (form : BeginsBody s)
    (begins : (tokens (body ++ more)).head? = some (.symbol s))
    (reads : Takes src body? body more B)
    (nested : Modifiers → Nat → Option String → Parser ClassId) {start : Nat}
    (undocumented : ∀ c, docAt src c start = none) :
    Takes src (declaredMember nested className start) (m.piecesWith body) more
      fun found => ∃ read : MethodDecl, found = [read.member] ∧ read.bodiless = m.bodiless ∧
        B read.body := by
  refine (takes_docBefore_none undocumented).look fun _ same => ?_
  subst same
  have ends := endsModifiers_typedPieces readable body more
  refine (takes_modifiers readable.modifiers ends).bind fun modifiers sameModifiers => ?_
  refine (takes_upcoming 2).look fun _ same => ?_
  subst same
  rw [beginsClass_typedPieces readable]
  refine (takes_typedMember readable form begins reads modifiers start none).finish fun _ known => ?_
  obtain ⟨read, rfl, same, known⟩ := known
  refine takes_closeDocs.finish fun _ _ => .pure ⟨read, rfl, ?_, known⟩
  rw [same]
  simp only [MethodDecl.bodiless, MethodDecl.unspanned, sameModifiers, readable.doc]

theorem takes_initializerBlock?_none {start : Nat}
    (notStatic : (tokens more).take 2 ≠ [.name "static", .symbol .lbrace])
    (notBlock : (tokens more).head? ≠ some (.symbol .lbrace)) :
    Takes src (initializerBlock? start) [] more (· = none) :=
  .of_same fun {c _} here => ⟨_, c, initializerBlock?_of_ne here notStatic notBlock, rfl, rfl⟩

theorem exists_head_piecesWith (m : MethodDecl) (body : List Piece) :
    ∃ t others, m.piecesWith body = .token t :: others ∧ t.isDoc = false ∧
      t ≠ .symbol .semicolon ∧ t ≠ .symbol .lbrace := by
  rw [MethodDecl.piecesWith, Modifiers.pieces]
  cases m.modifiers.annotations with
  | cons a as => exact ⟨.symbol .atSign, _, rfl, rfl, by simp, by simp⟩
  | nil =>
    cases m.modifiers.keywords with
    | cons word words => exact ⟨.name word, _, rfl, rfl, by simp, by simp⟩
    | nil =>
      cases m.typeParams with
      | cons p ps => exact ⟨.symbol .langle, _, rfl, rfl, by simp, by simp⟩
      | nil =>
        rw [MethodDecl.namedPieces]
        cases m.returnType with
        | none => exact ⟨wordToken m.name, _, rfl, by simp, by simp, by simp⟩
        | some t =>
          obtain ⟨name, args, dims⟩ := t
          obtain ⟨first, others, _, shape⟩ := exists_dottedPieces name
          rw [returnPieces, TypeRef.pieces, shape]
          exact ⟨wordToken first, _, rfl, by simp, by simp, by simp⟩

/-- Behind a modifier word stands another one, or what begins the rest. -/
theorem not_static_block (readable : m.Readable className) (body more : List Piece) :
    (tokens (m.piecesWith body ++ more)).take 2 ≠ [.name "static", .symbol .lbrace] := by
  have ends := endsModifiers_typedPieces readable body more
  have apart (s : String) : some (wordToken s) ≠ some (.symbol .lbrace) := by simp
  rw [MethodDecl.piecesWith, Modifiers.pieces, List.append_assoc]
  cases m.modifiers.annotations with
  | cons a as =>
    intro same
    cases same
  | nil =>
    cases m.modifiers.keywords with
    | nil =>
      intro same
      have head := head_of_take same
      rcases ends with angle | ⟨s, word, plain⟩
      · exact absurd (angle.symm.trans head) (by simp)
      · have token := Option.some.inj (word.symm.trans head)
        have text := congrArg Token.text token
        rw [text_wordToken] at text
        subst text
        exact absurd plain (by decide)
    | cons word words =>
      intro same
      have head := head_of_take (congrArg List.tail same)
      cases words with
      | cons next words => cases head
      | nil =>
        rcases ends with angle | ⟨s, word, _⟩
        · exact absurd (angle.symm.trans head) (by simp)
        · exact apart s (word.symm.trans head)

/-- The pieces of a declaration are read as one if those of its body are. -/
theorem member_of_piecesWith (readable : m.Readable className) {s : Symbol} (form : BeginsBody s)
    (begins : (tokens body).head? = some (.symbol s)) (reads : Takes src body? body [] B)
    (docs : ∀ d ∈ src.docs, 0 < d.stop) {c : Cursor} (here : At src c [] (m.piecesWith body)) :
    ∃ (read : MethodDecl) (c' : Cursor), (member className).on src c = .ok ([read.member], c') ∧
      read.bodiless = m.bodiless ∧ B read.body ∧ c'.rest = [] := by
  have undocumented (c : Cursor) : docAt src c 0 = none := docAt_zero docs
  obtain ⟨t, others, shape, plain, other, brace⟩ := exists_head_piecesWith m body
  have head : (tokens (m.piecesWith body)).head? = some t := by
    rw [shape, tokens_token _ plain]
    rfl
  have start : nextStart.on src c = .ok (0, c) := by
    rw [shape] at here
    exact here.nextStart plain
  rw [← List.append_nil (m.piecesWith body)] at head
  rw [← List.append_nil body] at begins
  have done : ∀ {p : Parser (List Member)}, Takes src p (m.piecesWith body) []
      (fun found => ∃ read : MethodDecl, found = [read.member] ∧ read.bodiless = m.bodiless ∧
        B read.body) →
      ∃ (read : MethodDecl) (c' : Cursor), p.on src c = .ok ([read.member], c') ∧
        read.bodiless = m.bodiless ∧ B read.body ∧ c'.rest = [] := by
    intro p reads
    obtain ⟨_, c', before, run, behind, read, rfl, same, known⟩ := reads.take (by simpa using here)
    exact ⟨read, c', run, same, known, behind.rest⟩
  rw [member, memberOver, on_bind_of_ok start]
  refine done ?_
  refine (takes_accept_none (by rw [head]; simpa using other)).look fun _ same => ?_
  subst same
  refine (takes_initializerBlock?_none (not_static_block readable _ _)
    (by rw [head]; simpa using brace)).look fun _ same => ?_
  subst same
  exact takes_declaredMember readable form begins reads classDecl undocumented

end Signatures

end Parser

end CreatorSynth
