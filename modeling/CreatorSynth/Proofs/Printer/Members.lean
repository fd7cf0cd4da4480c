import CreatorSynth.Proofs.Printer.Callables
import CreatorSynth.Proofs.Printer.Fits
import CreatorSynth.Proofs.Token.Places

/-! A printed constructor is read back: whatever it is made of, the text says it again. -/
namespace CreatorSynth
open Text

/-- A statement on a line of its own. -/
def Statement.linePieces (d : Dialect) (s : Statement) : List Piece :=
  .gap ('\n' :: indentUnit.toList) :: s.pieces d

namespace Parser
open Piece

variable {src : Source} {more : List Piece}

section Statements

/-- A call without arguments has an empty text for its only argument. -/
theorem takes_callArgs_nil :
    Takes src callArgs [.token (.symbol .lparen), .token (.symbol .rparen)] more (· = []) := by
  refine ⟨fun {c before} here => ?_⟩
  have inner : At src c.next (before ++ ['(']) (.token (.symbol .rparen) :: more) := here.next rfl
  have start : byteLength before + 1 = byteLength (before ++ ['(']) := by
    rw [byteLength_append]
    rfl
  have text : src.text = before ++ ['('] ++ [] ++
      (.token (.symbol .rparen) :: more : List Piece).flatMap Piece.text := by
    rw [List.append_nil]
    exact inner.text
  have cutOut := on_cut_of_text (c := c.next) text
  have closes : callArguments 0 (byteLength (before ++ ['('])) c.next.rest =
      some ([(byteLength (before ++ ['(']), byteLength (before ++ ['(']))],
        ⟨.symbol .rparen, byteLength (before ++ ['(']), c.next.next.lastStop⟩,
        c.next.next.rest) := by
    generalize c.next = opened at inner
    rw [Cursor.next, inner.rest_token rfl]
    rfl
  rw [List.append_nil] at cutOut
  refine ⟨[], c.next.next, before ++ ['('] ++ [')'], ?_, inner.next rfl, rfl⟩
  rw [callArgs, on_bind_of_ok (here.nextStart rfl), on_bind_of_ok here.expect,
    on_bind_of_ok on_get, start, closes]
  simp only [List.mapM_cons, List.mapM_nil, bind_assoc, pure_bind]
  rw [on_bind_of_ok cutOut, on_bind_of_ok (on_moveTo _ _)]
  have same : { c.next with rest := c.next.next.rest, lastStop := c.next.next.lastStop } =
      c.next.next := by
    generalize c.next = opened at inner
    rw [Cursor.next, inner.rest_token rfl]
  rw [same]
  rfl

theorem takes_callArgs {names : List String} (proper : ∀ name ∈ names, IsName name) :
    Takes src callArgs
      (.token (.symbol .lparen) :: (namePieces names ++ [.token (.symbol .rparen)])) more
      (· = names) := by
  by_cases none : names = []
  · subst none
    exact takes_callArgs_nil
  · refine ⟨fun {c before} here => ?_⟩
    rw [List.cons_append, List.append_assoc] at here
    obtain ⟨c', run, behind⟩ := callArgs_namePieces none proper here
    exact ⟨_, c', _, run, behind, rfl⟩

theorem takes_endDeclaration (ends : EndsLine more) :
    Takes src endDeclaration src.dialect.terminatorPieces more fun _ => True := by
  refine ⟨fun here => ?_⟩
  obtain ⟨c', run, behind⟩ := endDeclaration_terminator ends here
  exact ⟨_, c', _, run, behind, trivial⟩

theorem takes_callStatement {word : Keyword} {names : List String}
    (proper : ∀ name ∈ names, IsName name) (ends : EndsLine more) :
    Takes src callStatement (callPieces word src.dialect names) more (· = names) := by
  have shape : callPieces word src.dialect names = .token (.keyword word) ::
      ((.token (.symbol .lparen) :: (namePieces names ++ [.token (.symbol .rparen)])) ++
        src.dialect.terminatorPieces) := by
    simp [callPieces]
  rw [shape]
  refine (takes_advance rfl).step fun _ _ => ?_
  refine (takes_callArgs proper).bind fun _ same => ?_
  subst same
  exact (takes_endDeclaration ends).finish fun _ _ => .pure rfl

theorem takes_call (form : List String → Span → Statement) (start : Nat) {word : Keyword}
    {names : List String} (proper : ∀ name ∈ names, IsIdentifier name) (ends : EndsLine more) :
    Takes src (do return form (← callStatement) (← spanFrom start))
      (callPieces word src.dialect names) more fun found => ∃ span, found = form names span := by
  refine (takes_callStatement (fun name member => (proper name member).isName) ends).finish
    fun _ same => ?_
  subst same
  exact (takes_spanFrom start).finish fun span _ => .pure ⟨span, rfl⟩

theorem takes_statement_of_head (head : StatementHead) {pieces : List Piece} {A : Statement → Prop}
    (other : (tokens (pieces ++ more)).head? ≠ some (.symbol .semicolon))
    (kind : StatementHead.ofTokens ((tokens (pieces ++ more)).take 5) = head)
    (read : ∀ start, Takes src (statementFrom start head) pieces more A) :
    Takes src statement pieces more fun found => ∃ s, found = some s ∧ A s := by
  refine takes_nextStart.look fun start _ => ?_
  refine (takes_accept_none other).look fun _ same => ?_
  subst same
  refine (takes_upcoming 5).look fun _ same => ?_
  subst same
  rw [kind]
  exact (read start).finish fun s known => .pure ⟨s, rfl, known⟩

theorem takes_statement {s : Statement} (spelled : s.Spelled) (ends : EndsLine more) :
    Takes src statement (s.pieces src.dialect) more fun found =>
      found.map Statement.unspanned = some s.unspanned := by
  cases s with
  | superCall args span =>
    refine (takes_statement_of_head .superCall (by nofun) rfl fun start =>
      takes_call .superCall start spelled ends).weaken ?_
    rintro _ ⟨_, rfl, _, rfl⟩
    rfl
  | thisCall args span =>
    refine (takes_statement_of_head .thisCall (by nofun) rfl fun start =>
      takes_call .thisCall start spelled ends).weaken ?_
    rintro _ ⟨_, rfl, _, rfl⟩
    rfl
  | assign qualified field value span =>
    refine ⟨fun here => ?_⟩
    have proper : (BodyLine.assign qualified field value).Proper :=
      ⟨spelled.1.isName, spelled.2.isName⟩
    obtain ⟨_, c', run, behind⟩ := statement_assign proper ends here
    exact ⟨_, c', _, run, behind, rfl⟩
  | other text span => cases spelled

theorem exists_head_statement (d : Dialect) {s : Statement} (spelled : s.Spelled) :
    ∃ t others, s.pieces d = .token t :: others ∧ t.isDoc = false ∧ t ≠ .symbol .semicolon ∧
      t ≠ .symbol .rbrace := by
  cases s with
  | superCall args span => exact ⟨.keyword .superWord, _, rfl, rfl, nofun, nofun⟩
  | thisCall args span => exact ⟨.keyword .thisWord, _, rfl, rfl, nofun, nofun⟩
  | assign qualified field value span =>
    cases qualified with
    | true => exact ⟨.keyword .thisWord, _, rfl, rfl, nofun, nofun⟩
    | false => exact ⟨.name field, _, rfl, rfl, nofun, nofun⟩
  | other text span => cases spelled

theorem endsLine_linePieces (d : Dialect) {s : Statement} (spelled : s.Spelled)
    (more : List Piece) : EndsLine (s.linePieces d ++ more) := by
  obtain ⟨t, others, shape, plain, other, _⟩ := exists_head_statement d spelled
  exact ⟨_, t, others ++ more, by rw [Statement.linePieces, shape]; rfl, plain, other⟩

theorem takes_expectMore (some : tokens more ≠ []) :
    Takes src expectMore [] more fun _ => True := by
  refine .of_same fun {c before} here => ⟨⟨⟩, c, ?_, rfl, trivial⟩
  have left : c.rest.isEmpty = false := by
    rw [← Bool.not_eq_true, List.isEmpty_iff_length_eq_zero, here.length]
    exact fun none => some (List.length_eq_zero_iff.mp none)
  rw [expectMore, on_bind_of_ok on_atEnd, left]
  rfl

theorem takes_blockStep_of_statement {pieces : List Piece} {t : Token} {A : Option Statement → Prop}
    (head : (tokens (pieces ++ more)).head? = some t) (other : t ≠ .symbol .rbrace)
    (read : Takes src statement pieces more A) :
    Takes src blockStep pieces more fun found => ∃ a, found = some a ∧ A a := by
  refine (takes_sees .rbrace).look fun _ same => ?_
  rw [same, head, beq_eq_false_iff_ne.mpr (by simpa using other)]
  refine (takes_expectMore (fun none => by rw [none] at head; cases head)).look fun _ _ => ?_
  exact read.finish fun found known => .pure ⟨found, rfl, known⟩

theorem takes_blockStep {s : Statement} (spelled : s.Spelled) (ends : EndsLine more) :
    Takes src blockStep (s.linePieces src.dialect) more fun found =>
      ∃ a, found = some a ∧ a.map Statement.unspanned = some s.unspanned := by
  obtain ⟨t, others, shape, plain, _, other⟩ := exists_head_statement src.dialect spelled
  have head : (tokens (s.pieces src.dialect ++ more)).head? = some t := by
    rw [shape, List.cons_append, tokens_token _ plain]
    rfl
  exact .gap (takes_blockStep_of_statement head other (takes_statement spelled ends))

theorem statementPieces_eq (d : Dialect) (statements : List Statement) :
    statementPieces d statements =
      statements.flatMap (Statement.linePieces d) ++ [.gap ['\n'], .token (.symbol .rbrace)] := by
  induction statements with
  | nil => rfl
  | cons s others ih => rw [statementPieces, ih]; simp [Statement.linePieces]

theorem takes_block {body : Block} (spelled : ∀ s ∈ body.statements, s.Spelled) :
    Takes src block (.token (.symbol .lbrace) :: statementPieces src.dialect body.statements) more
      (·.unspanned = body.unspanned) := by
  rw [statementPieces_eq]
  refine takes_nextStart.look fun start _ => ?_
  refine (takes_expect .lbrace).step fun _ _ => ?_
  have loop : Takes src (many blockStep)
      (body.statements.flatMap (Statement.linePieces src.dialect))
      ([.gap ['\n'], .token (.symbol .rbrace)] ++ more) fun found =>
        found.map (Option.map Statement.unspanned) =
          body.statements.map fun s => some s.unspanned := by
    refine takes_many EndsLine (fun s member more ends => takes_blockStep (spelled s member) ends)
      (fun s member more => endsLine_linePieces src.dialect (spelled s member) more)
      ⟨[], .symbol .rbrace, more, rfl, rfl, nofun⟩ (fun s member => ?_)
      ((takes_sees .rbrace).look fun _ same => ?_)
    · obtain ⟨t, others, shape, plain, _⟩ := exists_head_statement src.dialect (spelled s member)
      rw [Statement.linePieces, tokens_gap, shape, tokens_token _ plain]
      nofun
    · subst same
      exact .pure rfl
  refine loop.bind fun found same => ?_
  refine .gap ((takes_expect .rbrace).finish fun _ _ => ?_)
  refine (takes_spanFrom start).finish fun _ _ => .pure ?_
  have given := congrArg (List.filterMap id) same
  rw [Block.unspanned, Block.unspanned]
  congr 1
  simpa [List.filterMap_map, List.map_filterMap, Function.comp_def] using given

end Statements

section Constructors

variable {className : String} {m : MethodDecl}

theorem takes_body? (spelled : m.Spelled className) :
    Takes src body? (.token (.symbol .lbrace) :: statementPieces src.dialect m.statements) more
      fun found => found.map Block.unspanned = m.body.map Block.unspanned := by
  obtain ⟨body, given, statements⟩ := spelled.body
  rw [MethodDecl.statements, given]
  refine (takes_sees .lbrace).look fun _ same => ?_
  subst same
  exact (takes_block statements).finish fun _ same => .pure (congrArg some same)

theorem member_of_pieces (spelled : m.Spelled className) (docs : ∀ d ∈ src.docs, 0 < d.stop)
    {c : Cursor} (here : At src c [] (m.pieces src.dialect)) :
    ∃ read c', (member className).on src c = .ok ([.constructor read], c') ∧
      read.unspanned = m.unspanned ∧ c'.rest = [] := by
  obtain ⟨read, c', run, same, sameBody, empty⟩ :=
    member_of_piecesWith spelled.readable (.inl rfl) rfl (.gap (takes_body? spelled)) docs here
  have kind : read.returnType = none :=
    (congrArg MethodDecl.returnType same).trans spelled.returnType
  rw [MethodDecl.member, MethodDecl.isConstructor, kind] at run
  exact ⟨read, c', run, by rw [MethodDecl.unspanned_eq, same, sameBody]; rfl, empty⟩

end Constructors

end Parser

/-- Whatever a constructor is made of, it is read from its text again, up to the places. -/
theorem parseMember_text {className : String} {m : MethodDecl} (spelled : m.Spelled className)
    (closed : m.Closed) (d : Dialect) :
    ∃ found, parseMember (m.text d) className d = .ok (.constructor found) ∧
      found.unspanned = (m.printed d).unspanned := by
  have tokens := MethodDecl.tokenize_text spelled closed d
  let located := Piece.locate 0 ((m.printed d).pieces d)
  have docs : ∀ doc ∈ (Parser.sourceOf (m.text d) d located).docs, 0 < doc.stop := by
    intro doc member
    have stands := (tokenize_places tokens).2 doc (List.mem_filter.mp member).1
    exact Nat.lt_of_le_of_lt (Nat.zero_le _) stands.some
  have here : Parser.At (Parser.sourceOf (m.text d) d located) (Parser.start located) []
      ((m.printed d).pieces d) :=
    Parser.at_start (MethodDecl.flatMap_text_pieces spelled d)
  obtain ⟨found, c', run, same, empty⟩ :=
    Parser.member_of_pieces (spelled.printed d) docs here
  exact ⟨found, parseMember_eq_ok.mpr ⟨located, c', tokens, run, empty⟩, same⟩

def ornateCreator : MethodDecl where
  modifiers := ⟨["public"], [.marker "Inject",
    ⟨"a.Named", some "value = \"b\", order = f(1)", Span.none⟩]⟩
  typeParams := [⟨"T", [.simple "A", ⟨"a.B", [.extending (.simple "T"), .any], 0⟩]⟩]
  returnType := none
  name := "C"
  params := [
    ⟨⟨["final"], [.marker "Nullable"]⟩, ⟨"Map", [.type (.simple "K"), .superOf (.simple "V")], 1⟩,
      "map", false, Span.none⟩,
    ⟨.empty, .simple "T", "others", true, Span.none⟩]
  throws := [.simple "IOException", .simple "a.E"]
  body := some ⟨[.superCall ["map", "others"] Span.none, .assign true "others" "others" Span.none,
    .assign false "size" "map" Span.none], Span.none⟩
  doc := none
  span := Span.none

theorem ornateCreator_text : ornateCreator.Spelled "C" ∧ ornateCreator.Closed ∧
    ∃ found, parseMember (ornateCreator.text .groovy) "C" .groovy = .ok (.constructor found) ∧
      found.unspanned = (ornateCreator.printed .groovy).unspanned := by
  have spelled : ornateCreator.Spelled "C" := by decide +kernel
  have closed : ornateCreator.Closed := by decide
  exact ⟨spelled, closed, parseMember_text spelled closed .groovy⟩

/-- The arguments of either annotation are an empty string and another one. -/
def openBlocks : MethodDecl where
  modifiers := ⟨[], [⟨"A", some "\"\"\"a\"", Span.none⟩, ⟨"A", some "\"\"\"a\"", Span.none⟩]⟩
  typeParams := []
  returnType := none
  name := "A"
  params := []
  throws := []
  body := some ⟨[], Span.none⟩
  doc := none
  span := Span.none

/-- One behind the other, three quotes of one annotation and of the next enclose a text block. -/
theorem openBlocks_unread : openBlocks.Spelled "A" ∧
    ¬ ∃ found, parseMember (openBlocks.text .java) "A" .java = .ok (.constructor found) := by
  refine ⟨by decide, ?_⟩
  rintro ⟨found, read⟩
  have unread : (parseMember (openBlocks.text .java) "A" .java).toOption = none := by
    decide +kernel
  rw [read] at unread
  cases unread

end CreatorSynth
