import Mathlib.Data.List.Forall2
import CreatorSynth.Creator.Prototype
import CreatorSynth.Proofs.Creator.Body
import CreatorSynth.Proofs.Parser.Ahead

/-! A generated body is read back as the statements it was written for, in either dialect, save that
an assignment to a field called `record` is kept as text. -/
namespace CreatorSynth
open Text

/-- A statement without its place in the source. -/
def Statement.unspanned : Statement → Statement
  | superCall args _ => superCall args Span.none
  | thisCall args _ => thisCall args Span.none
  | assign qualified field value _ => assign qualified field value Span.none
  | other text _ => other text Span.none

theorem dropWhile_of_none {p : Char → Bool} {cs : List Char} (none : ∀ c ∈ cs, p c = false) :
    cs.dropWhile p = cs := by
  cases cs with
  | nil => rfl
  | cons c cs => rw [List.dropWhile_cons_of_neg (by simp [none c List.mem_cons_self])]

theorem trim_append_word {blanks : List Char} {name : String} (blank : blanks.all isBlank = true)
    (word : IsWord name) : trim (blanks ++ name.toList) = name.toList := by
  have started : trimStart (blanks ++ name.toList) = name.toList := by
    rw [trimStart, List.dropWhile_append_of_pos (List.all_eq_true.mp blank),
      dropWhile_of_none word.solid]
  rw [trim, started, trimEnd, dropWhile_of_none, List.reverse_reverse]
  intro c member
  exact word.solid c (List.mem_reverse.mp member)

/-- The statement says what the line was written for, or is the text of an assignment to a field
called `record`. -/
def BodyLine.ReadAs (line : BodyLine) (s : Statement) : Prop :=
  s.unspanned = line.statement ∨
    ∃ qualified param text span, line = .assign qualified Keyword.recordWord.text param ∧
      s = .other text span

theorem BodyLine.ReadAs.unspanned {line : BodyLine} {s : Statement} (read : line.ReadAs s)
    (proper : line.Proper) : s.unspanned = line.statement := by
  obtain said | ⟨qualified, param, text, span, rfl, _⟩ := read
  · exact said
  · exact absurd rfl proper.1.ne_record

theorem BodyLine.map_unspanned_of_readAs {lines : List BodyLine} {statements : List Statement}
    (proper : ∀ line ∈ lines, line.Proper) (read : List.Forall₂ ReadAs lines statements) :
    statements.map Statement.unspanned = lines.map statement := by
  induction read with
  | nil => rfl
  | cons first others ih =>
    rw [List.map_cons, List.map_cons, first.unspanned (proper _ List.mem_cons_self),
      ih fun line member => proper line (List.mem_cons_of_mem _ member)]

namespace Parser
open Piece

theorem callArguments_namePieces {names : List String} {src : Source} {before blanks : List Char}
    {more : List Piece} (some : names ≠ []) (words : ∀ name ∈ names, IsWord name)
    (blank : blanks.all isBlank = true)
    (whole : src.text = before ++ blanks ++
      ((namePieces names).map asCut ++ .token (.symbol .rparen) :: more).flatMap Piece.text) :
    ∃ bounds last, callArguments 0 (byteLength before)
        (ahead (byteLength (before ++ blanks))
          ((namePieces names).map asCut ++ .token (.symbol .rparen) :: more)) =
        .some (bounds, last, ahead (byteLength (before ++ blanks ++
          (namePieces names).flatMap Piece.text ++ [')'])) more) ∧
      ∀ c, (bounds.mapM fun bound => cut bound.1 bound.2).on src c = .ok (names, c) := by
  fun_induction namePieces names generalizing before blanks with
  | case1 => exact absurd rfl some
  | case2 name =>
    refine ⟨[(byteLength before, byteLength (before ++ (blanks ++ name.toList)))],
      ⟨.symbol .rparen, byteLength (before ++ (blanks ++ name.toList)),
        byteLength (before ++ (blanks ++ name.toList) ++ [')'])⟩, ?_, fun c => ?_⟩
    · simp [callArguments, asCut, Piece.text, Token.text, Symbol.text, Nat.add_assoc]
    · have text : src.text = before ++ (blanks ++ name.toList) ++
          (.token (.symbol .rparen) :: more).flatMap Piece.text := by
        rw [whole]
        simp [asCut]
      rw [List.mapM_cons, on_bind_of_ok (on_cut_of_text text),
        trim_append_word blank (words name List.mem_cons_self), String.ofList_toList]
      rfl
  | case3 name names nonempty ih =>
    have text : src.text = before ++ (blanks ++ name.toList) ++ [','] ++ [' '] ++
        ((namePieces names).map asCut ++ .token (.symbol .rparen) :: more).flatMap Piece.text := by
      rw [whole]
      simp only [List.map_cons, asCut, List.cons_append, List.flatMap_cons, text_word]
      simp [Piece.text, Token.text, Symbol.text]
    obtain ⟨bounds, last, found, cuts⟩ := ih nonempty
      (fun other member => words other (List.mem_cons_of_mem _ member)) (by decide) text
    refine ⟨(byteLength before, byteLength (before ++ (blanks ++ name.toList))) :: bounds, last,
      ?_, fun c => ?_⟩
    · simp [callArguments, Token.nest, asCut, Piece.text, Token.text, Symbol.text,
        Nat.add_assoc] at found ⊢
      exact found
    · rw [List.append_assoc _ [' '], List.append_assoc _ [',']] at text
      rw [List.mapM_cons, on_bind_of_ok (on_cut_of_text text),
        trim_append_word blank (words name List.mem_cons_self), String.ofList_toList,
        on_bind_of_ok (cuts c), on_pure]

section Reading

variable {src : Source} {c : Cursor} {before : List Char} {more : List Piece}

theorem callArgs_map_namePieces {names : List String} (some : names ≠ [])
    (words : ∀ name ∈ names, IsWord name)
    (here : At src c before (.token (.symbol .lparen) ::
      ((namePieces names).map asCut ++ .token (.symbol .rparen) :: more))) :
    ∃ c', callArgs.on src c = .ok (names, c') ∧
      At src c' (before ++ '(' :: (namePieces names).flatMap Piece.text ++ [')']) more := by
  have opened : At src c.next (before ++ ['('])
      ((namePieces names).map asCut ++ .token (.symbol .rparen) :: more) := here.next rfl
  have whole : src.text = before ++ ['('] ++ [] ++
      ((namePieces names).map asCut ++ .token (.symbol .rparen) :: more).flatMap Piece.text := by
    rw [List.append_nil]
    exact opened.text
  obtain ⟨bounds, last, found, cuts⟩ := callArguments_namePieces some words rfl whole
  rw [List.append_nil, ← opened.rest] at found
  have start : byteLength before + 1 = byteLength (before ++ ['(']) := by
    rw [byteLength_append]
    rfl
  have notEmpty : names ≠ [""] := by
    rintro rfl
    obtain ⟨_, _, shape, _⟩ := (words "" List.mem_cons_self).shape
    cases shape
  refine ⟨{ c.next with
    rest := ahead (byteLength (before ++ '(' :: (namePieces names).flatMap Piece.text ++ [')'])) more
    lastStop := last.stop }, ?_, ?_, rfl⟩
  · rw [callArgs, on_bind_of_ok (here.nextStart rfl), on_bind_of_ok here.expect,
      on_bind_of_ok on_get, start, found]
    simp only [on_bind_of_ok (cuts c.next), on_bind, on_moveTo, Except.bind, on_pure,
      if_neg notEmpty, List.append_assoc, List.cons_append, List.nil_append]
  · rw [opened.text]
    simp [Piece.text, Token.text, Symbol.text]

theorem callArgs_namePieces {names : List String} (some : names ≠ [])
    (proper : ∀ name ∈ names, IsName name)
    (here : At src c before (.token (.symbol .lparen) ::
      (namePieces names ++ .token (.symbol .rparen) :: more))) :
    ∃ c', callArgs.on src c = .ok (names, c') ∧
      At src c' (before ++ '(' :: (namePieces names).flatMap Piece.text ++ [')']) more := by
  rw [← map_asCut_namePieces proper] at here
  exact callArgs_map_namePieces some (fun name member => .inl (proper name member)) here

/-- A line ends here, and another token than a semicolon begins the next one. -/
def EndsLine (more : List Piece) : Prop :=
  ∃ blanks t rest, more = .gap ('\n' :: blanks) :: .token t :: rest ∧ t.isDoc = false ∧
    t ≠ .symbol .semicolon

theorem endDeclaration_terminator (ends : EndsLine more)
    (here : At src c before (src.dialect.terminatorPieces ++ more)) :
    ∃ c', endDeclaration.on src c = .ok (⟨⟩, c') ∧
      At src c' (before ++ src.dialect.terminator.toList) more := by
  rw [on_endDeclaration]
  cases dialect : src.dialect with
  | java =>
    rw [dialect] at here
    exact ⟨c.next, here.expect, here.next rfl⟩
  | groovy =>
    rw [dialect] at here
    obtain ⟨blanks, t, rest, rfl, plain, other⟩ := ends
    refine ⟨c, ?_, by simpa [Dialect.terminator, Dialect.terminatorPieces] using here⟩
    rw [here.head, if_neg]
    simpa [Dialect.terminatorPieces, tokens_token _ plain] using other

/-- In Groovy a line ends between two tokens just if a line break stands there. -/
theorem breaksAfter_of_text {front between after : List Char}
    (whole : src.text = front ++ between ++ after) :
    src.breaksAfter (some (byteLength front)) (byteLength (front ++ between)) =
      .ok (decide (src.dialect = .groovy) && between.contains '\n') := by
  have order : min (byteLength front) (byteLength (front ++ between)) = byteLength front := by
    rw [byteLength_append]
    omega
  rw [Source.breaksAfter, Source.breaksBetween]
  cases src.dialect with
  | java => rfl
  | groovy =>
    rw [order, whole, byteLength_append, slice?_append]
    rfl

/-- An expression that is a word ends behind it: at a semicolon, or at the end of its line. -/
theorem passExpression_word {name : String} (ends : EndsLine more)
    (here : At src c before (.token (wordToken name) :: (src.dialect.terminatorPieces ++ more))) :
    src.passExpression 0 none c.rest =
      .ok (some (byteLength (before ++ name.toList)), c.next.rest) := by
  have behind := here.next (isDoc_wordToken name)
  rw [text_wordToken] at behind
  -- The word is passed, and what follows decides.
  have passed : src.passExpression 0 none c.rest =
      src.passExpression 0 (some (byteLength (before ++ name.toList))) c.next.rest := by
    rw [here.rest_token (isDoc_wordToken name), behind.rest]
    simp [Source.passExpression, Source.breaksAfter, bind, Except.bind]
  rw [passed]
  cases dialect : src.dialect with
  | java =>
    rw [dialect] at behind
    rw [behind.rest_token rfl]
    simp [Source.passExpression, pure, Except.pure]
  | groovy =>
    obtain ⟨blanks, t, rest, rfl, plain, other⟩ := ends
    rw [dialect] at behind
    have moved : At src c.next (before ++ name.toList ++ '\n' :: blanks) (.token t :: rest) :=
      behind.gap
    have breaks := breaksAfter_of_text moved.text
    simp only [dialect, decide_true, Bool.true_and, List.contains_cons, BEq.rfl,
      Bool.true_or] at breaks
    rw [moved.rest_token plain]
    by_cases stops : t = .symbol .semicolon ∨ t = .symbol .rbrace
    · simp [Source.passExpression, stops, pure, Except.pure]
    · simp only [Source.passExpression, stops, ↓reduceIte, breaks, bind, Except.bind, pure,
        Except.pure]

theorem expression_word {name : String} (word : IsWord name) (ends : EndsLine more)
    (here : At src c before (.token (wordToken name) :: (src.dialect.terminatorPieces ++ more))) :
    ∃ c', expression.on src c = .ok (name, c') ∧
      At src c' (before ++ name.toList) (src.dialect.terminatorPieces ++ more) := by
  have behind := here.next (isDoc_wordToken name)
  rw [text_wordToken] at behind
  have value : trim ([] ++ name.toList) = name.toList := trim_append_word rfl word
  refine ⟨{ c with
    rest := c.next.rest
    lastStop := byteLength (before ++ name.toList) }, ?_, behind.moved rfl⟩
  rw [expression, on_bind_of_ok (here.nextStart (isDoc_wordToken name)), on_bind_of_ok on_read,
    on_bind_of_ok on_get, passExpression_word ends here, on_bind_of_ok (on_liftExcept _),
    on_bind_of_ok (on_resume _), Option.getD_some, on_cut_of_text behind.text,
    ← List.nil_append name.toList, value, String.ofList_toList]
  rfl

theorem statement_of_head (head : StatementHead) {found : Statement} {c' : Cursor}
    {t : Token} {more' : List Piece} (here : At src c before (.token t :: more'))
    (other : (tokens (.token t :: more')).head? ≠ some (.symbol .semicolon))
    (kind : StatementHead.ofTokens ((tokens (.token t :: more')).take 5) = head)
    (plain : t.isDoc = false)
    (read : (statementFrom (byteLength before) head).on src c = .ok (found, c')) :
    statement.on src c = .ok (some found, c') := by
  rw [statement, on_bind_of_ok (here.nextStart plain), on_bind_of_ok (here.accept_of_ne other)]
  simp only [Bool.false_eq_true, ↓reduceIte]
  rw [on_bind_of_ok (here.upcoming 5), kind, on_bind_of_ok read, on_pure]

theorem statement_superCall {names : List String} (worded : (BodyLine.superCall names).Worded)
    (ends : EndsLine more)
    (here : At src c before
      (((BodyLine.superCall names).pieces src.dialect).map asCut ++ more)) :
    ∃ span c', statement.on src c = .ok (some (.superCall names span), c') ∧
      At src c' (before ++ ((BodyLine.superCall names).text src.dialect).toList) more := by
  have shape : At src c before (.token (.keyword .superWord) :: .token (.symbol .lparen) ::
      ((namePieces names).map asCut ++ .token (.symbol .rparen) ::
        (src.dialect.terminatorPieces ++ more))) := by
    simpa [BodyLine.pieces, asCut, map_asCut_terminatorPieces] using here
  obtain ⟨called, args, behind⟩ := callArgs_map_namePieces worded.1 worded.2 (shape.next rfl)
  obtain ⟨ended, terminated, last⟩ := endDeclaration_terminator ends behind
  have call : callStatement.on src c = .ok (names, ended) := by
    rw [callStatement, on_bind_of_ok on_advance, on_bind_of_ok args, on_bind_of_ok terminated,
      on_pure]
  refine ⟨⟨byteLength before, max ended.lastStop (byteLength before)⟩, ended, ?_, ?_⟩
  · refine statement_of_head .superCall shape (by simp) rfl rfl ?_
    rw [statementFrom, on_bind_of_ok call, on_bind_of_ok (on_spanFrom _), on_pure]
  · simpa [BodyLine.text, flatMap_text_namePieces, Token.text, Keyword.text] using last

theorem assignment_of_names {field param : String} (qualified : Bool) (start : Nat)
    (word : IsWord param) (ends : EndsLine more)
    (here : At src c before (.token (.name field) :: .gap [' '] :: .token (.symbol .equals) ::
      .gap [' '] :: .token (wordToken param) :: (src.dialect.terminatorPieces ++ more))) :
    ∃ span ended, (assignment qualified start).on src c =
        .ok (.assign qualified field param span, ended) ∧
      At src ended (before ++ (field ++ " = " ++ param ++ src.dialect.terminator).toList) more := by
  have sign := (here.next rfl).gap
  have value := (sign.next rfl).gap
  obtain ⟨valued, read, behind⟩ := expression_word word ends value
  obtain ⟨ended, terminated, last⟩ := endDeclaration_terminator ends behind
  refine ⟨⟨start, max ended.lastStop start⟩, ended, ?_,
    by simpa [Token.text, Symbol.text] using last⟩
  rw [assignment, on_bind_of_ok here.identifier, on_bind_of_ok sign.expect, on_bind_of_ok read,
    on_bind_of_ok terminated, on_bind_of_ok (on_spanFrom _), on_pure]

theorem map_asCut_assign (d : Dialect) (qualified : Bool) (field param : String) :
    ((BodyLine.assign qualified field param).pieces d).map asCut =
      (if qualified then [.token (.keyword .thisWord), .token (.symbol .dot)] else []) ++
        .token (wordToken field) :: .gap [' '] :: .token (.symbol .equals) :: .gap [' '] ::
          .token (wordToken param) :: d.terminatorPieces := by
  cases qualified <;> simp [BodyLine.pieces, asCut, map_asCut_terminatorPieces]

theorem statement_assign_word {qualified : Bool} {field param : String} (name : IsName field)
    (word : IsWord param) (ends : EndsLine more)
    (here : At src c before
      (((BodyLine.assign qualified field param).pieces src.dialect).map asCut ++ more)) :
    ∃ span c', statement.on src c = .ok (some (.assign qualified field param span), c') ∧
      At src c' (before ++ ((BodyLine.assign qualified field param).text src.dialect).toList)
        more := by
  rw [map_asCut_assign, wordToken_of_isName name] at here
  cases qualified with
  | false =>
    have shape : At src c before (.token (.name field) :: .gap [' '] ::
        .token (.symbol .equals) :: .gap [' '] :: .token (wordToken param) ::
        (src.dialect.terminatorPieces ++ more)) := by simpa using here
    obtain ⟨span, ended, read, last⟩ :=
      assignment_of_names false (byteLength before) word ends shape
    exact ⟨span, ended, statement_of_head (.assignment false) shape (by simp)
      (by simp [StatementHead.ofTokens]) rfl read, by simpa [BodyLine.text] using last⟩
  | true =>
    have shape : At src c before (.token (.keyword .thisWord) :: .token (.symbol .dot) ::
        .token (.name field) :: .gap [' '] :: .token (.symbol .equals) :: .gap [' '] ::
        .token (wordToken param) :: (src.dialect.terminatorPieces ++ more)) := by
      simpa using here
    obtain ⟨span, ended, read, last⟩ :=
      assignment_of_names true (byteLength before) word ends ((shape.next rfl).next rfl)
    refine ⟨span, ended, statement_of_head (.assignment true) shape (by simp)
      (by simp [StatementHead.ofTokens]) rfl ?_, ?_⟩
    · rw [statementFrom, on_bind_of_ok on_advance, on_bind_of_ok on_advance, read]
    · simpa [BodyLine.text, Token.text, Keyword.text, Symbol.text] using last

theorem statement_assign {qualified : Bool} {field param : String}
    (proper : (BodyLine.assign qualified field param).Proper) (ends : EndsLine more)
    (here : At src c before ((BodyLine.assign qualified field param).pieces src.dialect ++ more)) :
    ∃ span c', statement.on src c = .ok (some (.assign qualified field param span), c') ∧
      At src c' (before ++ ((BodyLine.assign qualified field param).text src.dialect).toList)
        more := by
  rw [← BodyLine.map_asCut_pieces _ proper] at here
  exact statement_assign_word proper.1 (.inl proper.2) ends here

section Raw

/-- A raw statement goes on behind the piece: it is no bracket, and ends no statement or line. -/
def Calm : Piece → Prop
  | .gap cs => '\n' ∉ cs
  | .token t => t.isDoc = false ∧ t.nest 0 = 0 ∧ t ≠ .symbol .semicolon ∧ t ≠ .symbol .rbrace

theorem calm_keyword (word : Keyword) : Calm (.token (.keyword word)) :=
  ⟨rfl, rfl, nofun, nofun⟩

theorem calm_wordToken (s : String) : Calm (.token (wordToken s)) :=
  ⟨isDoc_wordToken s, nest_wordToken 0 s, wordToken_ne_symbol s _, wordToken_ne_symbol s _⟩

theorem calm_dot : Calm (.token (.symbol .dot)) :=
  ⟨rfl, rfl, nofun, nofun⟩

theorem calm_equals : Calm (.token (.symbol .equals)) :=
  ⟨rfl, rfl, nofun, nofun⟩

/-- A raw statement passes over calm pieces. It remembers where the last token of them ends, and
there is no line break behind that. -/
theorem passStatement_calm {pieces : List Piece} {front blanks : List Char}
    (calm : ∀ piece ∈ pieces, Calm piece) (line : '\n' ∉ blanks)
    (whole : src.text = front ++ blanks ++ (pieces ++ more).flatMap Piece.text) :
    ∃ inner blanks', front ++ blanks ++ pieces.flatMap Piece.text = front ++ inner ++ blanks' ∧
      '\n' ∉ blanks' ∧
      src.passStatement 0 (some (byteLength front))
          (ahead (byteLength (front ++ blanks)) (pieces ++ more)) =
        src.passStatement 0 (some (byteLength (front ++ inner)))
          (ahead (byteLength (front ++ inner ++ blanks')) more) := by
  induction pieces generalizing front blanks with
  | nil => exact ⟨[], blanks, by simp, line, by simp⟩
  | cons piece pieces ih =>
    obtain ⟨first, others⟩ := List.forall_mem_cons.mp calm
    cases piece with
    | gap cs =>
      have unbroken : '\n' ∉ blanks ++ cs := by simpa using ⟨line, first⟩
      have behind : src.text = front ++ (blanks ++ cs) ++ (pieces ++ more).flatMap Piece.text := by
        rw [whole]
        simp [Piece.text]
      obtain ⟨inner, blanks', same, line', passed⟩ := ih others unbroken behind
      refine ⟨inner, blanks', ?_, line', ?_⟩
      · rw [← same]
        simp [Piece.text]
      · rw [← passed, List.cons_append, ahead_gap, ← List.append_assoc, byteLength_append _ cs]
    | token t =>
      obtain ⟨plain, flat, goesOn, open'⟩ := first
      have behind : src.text = (front ++ blanks ++ t.text.toList) ++ [] ++
          (pieces ++ more).flatMap Piece.text := by
        rw [whole]
        simp [Piece.text]
      obtain ⟨inner, blanks', same, line', passed⟩ := ih others List.not_mem_nil behind
      have breaks := breaksAfter_of_text whole
      rw [List.contains_eq_mem, decide_eq_false line, Bool.and_false] at breaks
      refine ⟨blanks ++ t.text.toList ++ inner, blanks', ?_, line', ?_⟩
      · rw [List.append_nil] at same
        simpa [Piece.text] using same
      · rw [List.append_nil] at passed
        rw [List.cons_append, ahead_token _ _ plain, ← byteLength_append, Source.passStatement]
        simp only [breaks, flat, goesOn, open', bind, Except.bind, ↓reduceIte, false_and,
          Bool.false_eq_true]
        rw [passed]
        simp

theorem passStatement_terminator {front blanks : List Char} (ends : EndsLine more)
    (whole : src.text = front ++ blanks ++
      (src.dialect.terminatorPieces ++ more).flatMap Piece.text) :
    ∃ last, src.passStatement 0 (some (byteLength front))
        (ahead (byteLength (front ++ blanks)) (src.dialect.terminatorPieces ++ more)) =
      .ok (some (byteLength front), some last,
        ahead (byteLength (front ++ blanks ++ src.dialect.terminator.toList)) more) := by
  cases dialect : src.dialect with
  | java =>
    refine ⟨byteLength (front ++ blanks) + byteLength [';'], ?_⟩
    simp [Dialect.terminatorPieces, Dialect.terminator, Source.passStatement, Symbol.text,
      pure, Except.pure, Nat.add_assoc]
  | groovy =>
    obtain ⟨gap, t, rest, rfl, plain, other⟩ := ends
    have broken : src.text = front ++ (blanks ++ '\n' :: gap) ++
        (.token t :: rest : List Piece).flatMap Piece.text := by
      rw [whole, dialect]
      simp [Dialect.terminatorPieces, Piece.text]
    have breaks := breaksAfter_of_text broken
    simp only [dialect, decide_true, Bool.true_and, List.contains_eq_mem, List.mem_append,
      List.mem_cons, true_or, or_true, ← List.append_assoc] at breaks
    refine ⟨byteLength front, ?_⟩
    rw [Dialect.terminatorPieces, List.nil_append, ahead_gap, ← byteLength_append,
      ahead_token _ _ plain, Source.passStatement]
    by_cases closes : t = .symbol .rbrace
    · simp [closes, pure, Except.pure, Dialect.terminator, Token.text, Symbol.text, Nat.add_assoc]
    · simp only [other, closes, breaks, bind, Except.bind, pure, Except.pure, ↓reduceIte]
      simp [Dialect.terminator, ahead_token _ _ plain, Nat.add_assoc]

theorem rawStatement_line {t : Token} {pieces : List Piece} (first : Calm (.token t))
    (calm : ∀ piece ∈ pieces, Calm piece) (ends : EndsLine more)
    (here : At src c before (.token t :: (pieces ++ (src.dialect.terminatorPieces ++ more)))) :
    ∃ text c', rawStatement.on src c = .ok (text, c') ∧
      At src c' (before ++ t.text.toList ++ pieces.flatMap Piece.text ++
        src.dialect.terminator.toList) more := by
  obtain ⟨plain, flat, goesOn, open'⟩ := first
  have behind := here.next plain
  have parts : src.text = before ++ t.text.toList ++ [] ++
      (pieces ++ (src.dialect.terminatorPieces ++ more)).flatMap Piece.text := by
    rw [behind.text, List.append_nil]
  obtain ⟨inner, blanks, same, line, passed⟩ := passStatement_calm calm List.not_mem_nil parts
  rw [List.append_nil] at same passed
  have whole : src.text = before ++ (t.text.toList ++ inner) ++ blanks ++
      (src.dialect.terminatorPieces ++ more).flatMap Piece.text := by
    rw [behind.text, List.flatMap_append, ← List.append_assoc, same]
    simp
  obtain ⟨last, ended⟩ := passStatement_terminator ends whole
  have run : src.passStatement 0 none c.rest =
      .ok (some (byteLength (before ++ (t.text.toList ++ inner))), some last,
        ahead (byteLength (before ++ t.text.toList ++ pieces.flatMap Piece.text ++
          src.dialect.terminator.toList)) more) := by
    rw [here.rest_token plain, Source.passStatement]
    simp only [Source.breaksAfter, flat, goesOn, open', bind, Except.bind, ↓reduceIte, false_and,
      and_false, Bool.false_eq_true]
    rw [passed, same, List.append_assoc before, ended]
  refine ⟨String.ofList (trim (t.text.toList ++ inner)), { c with
    rest := ahead (byteLength (before ++ t.text.toList ++ pieces.flatMap Piece.text ++
      src.dialect.terminator.toList)) more
    lastStop := last }, ?_, ?_, rfl⟩
  · rw [rawStatement, on_bind_of_ok (here.nextStart plain), on_bind_of_ok on_read,
      on_bind_of_ok on_get, run, on_bind_of_ok (on_liftExcept _)]
    rw [List.append_assoc] at whole
    simp only [on_bind_of_ok (on_resume _), Option.getD_some, on_cut_of_text whole]
  · rw [behind.text]
    simp [flatMap_text_terminatorPieces]

theorem statementFrom_other {text : String} {c' : Cursor}
    (read : rawStatement.on src c = .ok (text, c')) (start : Nat) :
    (statementFrom start .other).on src c =
      .ok (.other text ⟨start, max c'.lastStop start⟩, c') := by
  rw [statementFrom, on_bind_of_ok read, on_bind_of_ok (on_spanFrom _), on_pure]

/-- An assignment to a field called `record` is read as a raw statement. -/
theorem statement_assign_record {qualified : Bool} {param : String} (ends : EndsLine more)
    (here : At src c before
      (((BodyLine.assign qualified Keyword.recordWord.text param).pieces src.dialect).map asCut ++
        more)) :
    ∃ text span c', statement.on src c = .ok (some (.other text span), c') ∧
      At src c' (before ++ ((BodyLine.assign qualified Keyword.recordWord.text param).text
        src.dialect).toList) more := by
  rw [map_asCut_assign] at here
  have value : ∀ piece ∈ [.gap [' '], .token (.symbol .equals), .gap [' '],
      .token (wordToken param)], Calm piece := by
    have calmGap : Calm (.gap [' ']) := by simp [Calm]
    simp [calmGap, calm_equals, calm_wordToken]
  cases qualified with
  | false =>
    have shape : At src c before (.token (.keyword .recordWord) :: ([.gap [' '],
        .token (.symbol .equals), .gap [' '], .token (wordToken param)] ++
        (src.dialect.terminatorPieces ++ more))) := by simpa [wordToken] using here
    obtain ⟨text, c', read, behind⟩ := rawStatement_line (calm_keyword _) value ends shape
    simp only [List.flatMap_cons, text_word] at behind
    exact ⟨text, _, c',
      statement_of_head .other shape (by simp) rfl rfl (statementFrom_other read _),
      by simpa [BodyLine.text, Token.text, Keyword.text, Symbol.text, Piece.text] using behind⟩
  | true =>
    have shape : At src c before (.token (.keyword .thisWord) :: ([.token (.symbol .dot),
        .token (.keyword .recordWord), .gap [' '], .token (.symbol .equals), .gap [' '],
        .token (wordToken param)] ++ (src.dialect.terminatorPieces ++ more))) := by
      simpa [wordToken] using here
    have calm := List.forall_mem_cons.mpr
      ⟨calm_dot, List.forall_mem_cons.mpr ⟨calm_keyword .recordWord, value⟩⟩
    obtain ⟨text, c', read, behind⟩ := rawStatement_line (calm_keyword _) calm ends shape
    simp only [List.flatMap_cons, text_word] at behind
    exact ⟨text, _, c',
      statement_of_head .other shape (by simp) rfl rfl (statementFrom_other read _),
      by simpa [BodyLine.text, Token.text, Keyword.text, Symbol.text, Piece.text] using behind⟩

end Raw

/-- A line is read back as the statement it was written for. -/
theorem statement_bodyLine {line : BodyLine} (worded : line.Worded) (ends : EndsLine more)
    (here : At src c before ((line.pieces src.dialect).map asCut ++ more)) :
    ∃ s c', statement.on src c = .ok (some s, c') ∧ line.ReadAs s ∧
      At src c' (before ++ (line.text src.dialect).toList) more := by
  cases line with
  | superCall names =>
    obtain ⟨span, c', read, behind⟩ := statement_superCall worded ends here
    exact ⟨_, c', read, .inl rfl, behind⟩
  | assign qualified field param =>
    by_cases named : field = Keyword.recordWord.text
    · subst named
      obtain ⟨text, span, c', read, behind⟩ := statement_assign_record ends here
      exact ⟨_, c', read, .inr ⟨qualified, param, text, span, rfl, rfl⟩, behind⟩
    · obtain ⟨span, c', read, behind⟩ :=
        statement_assign_word (worded.1.isName named) worded.2 ends here
      exact ⟨_, c', read, .inl rfl, behind⟩

theorem exists_tokens_bodyLine (d : Dialect) (line : BodyLine) :
    ∃ t more, (line.pieces d).map asCut = .token t :: more ∧ t.isDoc = false ∧
      t ≠ .symbol .semicolon ∧ t ≠ .symbol .rbrace := by
  cases line with
  | superCall names => exact ⟨.keyword .superWord, _, rfl, rfl, nofun, nofun⟩
  | assign qualified field param =>
    cases qualified with
    | true => exact ⟨.keyword .thisWord, _, rfl, rfl, nofun, nofun⟩
    | false => exact ⟨wordToken field, _, rfl, by simp, by simp, by simp⟩

theorem endsLine_bodyPieces (d : Dialect) (lines : List BodyLine) :
    EndsLine ((bodyPieces d lines).map asCut) := by
  cases lines with
  | nil => exact ⟨[], .symbol .rbrace, _, rfl, rfl, nofun⟩
  | cons line lines =>
    obtain ⟨t, more, begins, plain, other, _⟩ := exists_tokens_bodyLine d line
    rw [map_asCut_bodyPieces_cons, begins]
    exact ⟨_, t, _, rfl, plain, other⟩

theorem steps_bodyPieces {lines : List BodyLine} (worded : ∀ line ∈ lines, line.Worded)
    (here : At src c before ((bodyPieces src.dialect lines).map asCut)) :
    ∃ found c' before', Steps blockStep src c found c' ∧
      List.Forall₂ BodyLine.ReadAs lines (found.filterMap id) ∧
      At src c' before' [.token (.symbol .rbrace), .gap ['\n']] := by
  induction lines generalizing c before with
  | nil =>
    have closing := here.gap
    refine ⟨[], c, _, .done ?_, .nil, closing⟩
    rw [blockStep, on_bind_of_ok (closing.sees .rbrace)]
    rfl
  | cons line lines ih =>
    have others := fun other member => worded other (List.mem_cons_of_mem line member)
    rw [map_asCut_bodyPieces_cons] at here
    obtain ⟨s, mid, read, same, behind⟩ := statement_bodyLine (worded line List.mem_cons_self)
      (endsLine_bodyPieces _ lines) here.gap
    obtain ⟨found, c', before', steps, statements, closing⟩ := ih others behind
    obtain ⟨t, later, begins, plain, _, other⟩ := exists_tokens_bodyLine src.dialect line
    have some : tokens ((line.pieces src.dialect).map asCut) = t :: tokens later := by
      rw [begins, tokens_token _ plain]
    have shorter := here.gap.shorter behind (by simp [some])
    refine ⟨.some s :: found, c', before', .more ?_ shorter steps, .cons same statements, closing⟩
    have open' : c.rest.isEmpty = false := by
      cases rest : c.rest with
      | nil => simp [rest] at shorter
      | cons => rfl
    rw [blockStep, on_bind_of_ok (here.gap.sees .rbrace), tokens_append, some]
    simp only [List.cons_append, List.head?_cons, Option.some_beq_some, beq_iff_eq, other,
      ↓reduceIte]
    have more' : expectMore.on src c = .ok (⟨⟩, c) := by
      rw [expectMore, on_bind_of_ok on_atEnd, open', if_neg Bool.false_ne_true, on_pure]
    rw [on_bind_of_ok more', on_bind_of_ok read, on_pure]

theorem block_bodyPieces {lines : List BodyLine} (worded : ∀ line ∈ lines, line.Worded)
    (here : At src c before
      (.token (.symbol .lbrace) :: (bodyPieces src.dialect lines).map asCut)) :
    ∃ body c', block.on src c = .ok (body, c') ∧
      List.Forall₂ BodyLine.ReadAs lines body.statements ∧ c'.rest = [] := by
  obtain ⟨found, closed, before', steps, statements, closing⟩ :=
    steps_bodyPieces worded (here.next rfl)
  refine ⟨⟨found.filterMap id, byteLength before, max closed.next.lastStop (byteLength before)⟩,
    closed.next, ?_, statements, (closing.next rfl).gap.rest⟩
  rw [block, on_bind_of_ok (here.nextStart rfl), on_bind_of_ok here.expect,
    on_bind_of_ok (on_many_of_steps steps), on_bind_of_ok closing.expect]
  rfl

theorem initializerBlock?_of_ne {start : Nat} (here : At src c before more)
    (notStatic : (tokens more).take 2 ≠ [.name "static", .symbol .lbrace])
    (notBlock : (tokens more).head? ≠ some (.symbol .lbrace)) :
    (initializerBlock? start).on src c = .ok (none, c) := by
  have plain : staticWord.on src c = .ok (false, c) := by
    rw [staticWord, on_bind_of_ok (here.upcoming 2), if_neg notStatic, on_pure]
  rw [initializerBlock?, on_bind_of_ok plain, on_bind_of_ok (here.sees .lbrace),
    beq_eq_false_iff_ne.mpr notBlock]
  rfl

theorem typedMember_stub {className : String} {lines : List BodyLine} (modifiers : Modifiers)
    (start : Nat) (doc : Option String) (worded : ∀ line ∈ lines, line.Worded)
    (here : At src c before (.token (.name className) :: .token (.symbol .lparen) ::
      .token (.symbol .rparen) :: .gap [' '] :: .token (.symbol .lbrace) ::
      (bodyPieces src.dialect lines).map asCut)) :
    ∃ stub body c', (typedMember className modifiers start doc).on src c =
        .ok ([.constructor stub], c') ∧ stub.body = some body ∧
      List.Forall₂ BodyLine.ReadAs lines body.statements ∧ c'.rest = [] := by
  have opening := here.next rfl
  have closing := opening.next rfl
  have brace := (closing.next rfl).gap
  obtain ⟨body, c', read, statements, empty⟩ := block_bodyPieces worded brace
  have noTypeParams : typeParams.on src c = .ok ([], c) := by
    rw [typeParams, on_bind_of_ok (here.accept_of_ne (by simp))]
    rfl
  have noParams : params.on src c.next = .ok ([], c.next.next.next) := by
    rw [params, on_bind_of_ok opening.expect, on_bind_of_ok closing.accept_of_head]
    rfl
  have noDims : dimensions.on src c.next.next.next = .ok (0, c.next.next.next) := by
    refine on_bind_of_ok (on_many_of_steps (.done ?_))
    rw [dimension, on_bind_of_ok (brace.upcoming 2)]
    simp
  have noThrows : throwsClause.on src c.next.next.next = .ok ([], c.next.next.next) := by
    rw [throwsClause, on_bind, on_acceptKeyword, brace.head]
    rfl
  have hasBody : body?.on src c.next.next.next = .ok (some body, c') := by
    rw [body?, on_bind_of_ok (brace.sees .lbrace)]
    simp only [tokens_symbol, List.head?_cons, BEq.rfl, ↓reduceIte]
    rw [on_bind_of_ok read, on_pure]
  obtain ⟨stub, method, same⟩ : ∃ stub, (methodRest modifiers [] none className start doc).on src
      c.next = .ok (stub, c') ∧ stub.body = some body := by
    refine ⟨{
      modifiers, typeParams := [], returnType := none, name := className, params := []
      throws := [], body := some body, doc, span := ⟨start, max c'.lastStop start⟩ }, ?_, rfl⟩
    rw [methodRest, on_bind_of_ok noParams, on_bind_of_ok noDims, on_bind_of_ok noThrows,
      on_bind_of_ok hasBody]
    rfl
  refine ⟨stub, body, c', ?_, same, statements, empty⟩
  rw [typedMember, on_bind_of_ok noTypeParams, on_bind_of_ok (here.upcoming 2)]
  simp only [tokens_name, tokens_symbol, List.take_succ_cons, List.take_zero, List.cons.injEq,
    Token.symbol.injEq, reduceCtorEq, and_false, and_true, ↓reduceIte]
  rw [on_bind_of_ok here.identifier, on_bind_of_ok method, on_pure]

theorem modifiers_accessPieces {className : String} (plain : isModifierKeyword className = false)
    (here : At src c before (src.dialect.accessPieces ++ .token (.name className) ::
      .token (.symbol .lparen) :: more)) :
    ∃ found c' before', modifiers.on src c = .ok (found, c') ∧
      At src c' before' (.token (.name className) :: .token (.symbol .lparen) :: more) := by
  have stops : ∀ {c : Cursor} {before : List Char}, At src c before (.token (.name className) ::
      .token (.symbol .lparen) :: more) → modifier.on src c = .ok (none, c) := by
    intro c before at'
    rw [modifier, on_bind_of_ok (at'.upcoming 2)]
    simp only [tokens_name, tokens_symbol, List.take_succ_cons, List.take_zero, modifierFrom, plain]
    rfl
  cases dialect : src.dialect with
  | groovy =>
    rw [dialect] at here
    exact ⟨_, c, before, on_bind_of_ok (on_many_of_steps (.done (stops here))), here⟩
  | java =>
    rw [dialect] at here
    have word : At src c before (.token (.name "public") :: .gap [' '] ::
      .token (.name className) :: .token (.symbol .lparen) :: more) := here
    have behind := (word.next rfl).gap
    have fewer := (show At src c before ([.token (.name "public"), .gap [' ']] ++ _) from
      word).shorter behind (by simp)
    have first : modifier.on src c = .ok (some (.inl "public"), c.next) := by
      have isModifier : isModifierKeyword "public" = true := by decide
      rw [modifier, on_bind_of_ok (word.upcoming 2)]
      simp only [tokens_name, tokens_gap, List.take_succ_cons, List.take_zero, modifierFrom,
        isModifier, ↓reduceIte]
      rw [on_bind_of_ok on_advance, on_pure]
    exact ⟨_, c.next, _, on_bind_of_ok (on_many_of_steps
      (.more first fewer (.done (stops behind)))), behind⟩

theorem member_stubPieces {className : String} {lines : List BodyLine}
    (named : IsName className) (plain : isModifierKeyword className = false)
    (worded : ∀ line ∈ lines, line.Worded)
    (here : At src c before ((stubPieces src.dialect className lines).map asCut)) :
    ∃ stub body c', (member className).on src c = .ok ([.constructor stub], c') ∧
      stub.body = some body ∧ List.Forall₂ BodyLine.ReadAs lines body.statements ∧
      c'.rest = [] := by
  rw [map_asCut_stubPieces, wordToken_of_isName named] at here
  have shape : ∃ t more', tokens (src.dialect.accessPieces ++ .token (.name className) ::
      .token (.symbol .lparen) :: .token (.symbol .rparen) :: .gap [' '] ::
      .token (.symbol .lbrace) :: (bodyPieces src.dialect lines).map asCut) = .name t :: more' ∧
      more'.head? ≠ some (.symbol .lbrace) := by
    cases src.dialect with
    | java => exact ⟨"public", _, rfl, nofun⟩
    | groovy => exact ⟨className, _, rfl, nofun⟩
  obtain ⟨t, more', begins, notBlock⟩ := shape
  obtain ⟨start, starts⟩ : ∃ start, nextStart.on src c = .ok (start, c) := ⟨_, on_nextStart⟩
  have noBlock : (initializerBlock? start).on src c = .ok (none, c) := by
    refine initializerBlock?_of_ne here ?_ (by simp [begins])
    rw [begins]
    cases more' with
    | nil => simp
    | cons next more' =>
      simpa using fun _ => notBlock
  obtain ⟨found, mid, _, read, behind⟩ := modifiers_accessPieces plain here
  obtain ⟨stub, body, c', typed, same, statements, empty⟩ :=
    typedMember_stub found start (docAt src c start) worded behind
  refine ⟨stub, body, { c' with docFloor := c'.lastStop }, ?_, same, statements, empty⟩
  rw [member, memberOver, on_bind_of_ok starts,
    on_bind_of_ok (here.accept_of_ne (by simp [begins]))]
  simp only [Bool.false_eq_true, ↓reduceIte]
  rw [on_bind_of_ok noBlock]
  simp only
  rw [declaredMember, on_bind_of_ok (on_docBefore start), on_bind_of_ok read,
    on_bind_of_ok (behind.upcoming 2)]
  simp only [tokens_name, tokens_symbol, List.take_succ_cons, List.take_zero, beginsClass,
    Bool.false_eq_true, ↓reduceIte]
  rw [on_bind_of_ok typed]
  rfl

end Reading

end Parser

end CreatorSynth
