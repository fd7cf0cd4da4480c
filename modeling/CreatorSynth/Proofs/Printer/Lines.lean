import CreatorSynth.Proofs.Printer.Bodies

/-! The lines of a printed Java body are read again, each as a statement of the same text, but for
one that goes on behind a block in front of it: the two are read as one, whose text is that of both. -/
namespace CreatorSynth
open Text

namespace Statement

/-- The statement is printed through the brace that ends its last block. -/
def EndsInBlock : Statement → Prop
  | other text _ => text.toList.getLast? = some '}'
  | _ => False

/-- An assignment to a field that is named by a word that continues a block, which is no
continuation of a block all the same: nothing is assigned, or a block ends in what is assigned. -/
def Unsettled : Statement → Prop
  | assign false field value _ => Token.continuesBlock (some (.name field)) = true ∧
      (value = "" ∨ depthOver .statement 0 (Piece.tokens (rawPieces value)) ≠ some 0)
  | _ => False

instance : (s : Statement) → Decidable s.EndsInBlock
  | other text _ => inferInstanceAs (Decidable (text.toList.getLast? = some '}'))
  | superCall _ _ | thisCall _ _ | assign _ _ _ _ => .isFalse id

instance : (s : Statement) → Decidable s.Unsettled
  | assign false field value _ => inferInstanceAs (Decidable
      (Token.continuesBlock (some (.name field)) = true ∧
        (value = "" ∨ depthOver .statement 0 (Piece.tokens (rawPieces value)) ≠ some 0)))
  | superCall _ _ | thisCall _ _ | assign true _ _ _ | other _ _ => .isFalse id

end Statement

/-- No statement is taken for a part of the one in front of it without being one. -/
def Settled (statements : List Statement) : Prop :=
  statements.IsChain fun s next => s.EndsInBlock → ¬next.Unsettled

instance (statements : List Statement) : Decidable (Settled statements) :=
  inferInstanceAs (Decidable (statements.IsChain fun s next => s.EndsInBlock → ¬next.Unsettled))

namespace Parser
open Piece

variable {src : Source} {unit further more : List Piece} {ts : List Token}

section Units

/-- What begins neither a call nor an assignment, from one token to another one. -/
structure IsUnit (unit : List Piece) : Prop where
  tight : Tight unit
  kind : StatementHead.ofTokens (tokens unit ++ [.symbol .semicolon]) = .other

theorem head_of_depthOver {depth : Nat} (across : depthOver .statement 0 ts = some depth) :
    ∀ s ∈ [Symbol.semicolon, .rbrace], ts.head? ≠ some (.symbol s) := by
  intro s listed same
  obtain ⟨others, rfl⟩ := List.head?_eq_some_iff.mp same
  have ended := (depthOver_cons across).1
  simp only [List.mem_cons, List.not_mem_nil, or_false] at listed
  rcases listed with rfl | rfl <;> cases ended

theorem tokens_ne_nil (tight : Tight unit) (some : unit ≠ []) : tokens unit ≠ [] := by
  obtain ⟨piece, others, rfl⟩ := List.exists_cons_of_ne_nil some
  obtain ⟨t, rfl⟩ := tight.first piece rfl
  rw [tokens_token others (tight.bare (.token t) List.mem_cons_self)]
  exact List.cons_ne_nil _ _

theorem exists_begin (tight : Tight unit) (form : IsOpen unit ∨ IsClosed unit) :
    ∃ t ts, tokens unit = t :: ts ∧ t ≠ .symbol .semicolon ∧ t ≠ .symbol .rbrace := by
  have begins {front : List Token} {depth : Nat} (some : front ≠ [])
      (across : depthOver .statement 0 front = Option.some depth) :
      ∃ t ts, front = t :: ts ∧ t ≠ .symbol .semicolon ∧ t ≠ .symbol .rbrace := by
    obtain ⟨t, ts, rfl⟩ := List.exists_cons_of_ne_nil some
    have other := head_of_depthOver across
    exact ⟨t, ts, rfl, fun same => other .semicolon (by simp) (congrArg Option.some same),
      fun same => other .rbrace (by simp) (congrArg Option.some same)⟩
  rcases form with ⟨some, across⟩ | ⟨front, rfl, across⟩
  · exact begins (tokens_ne_nil tight some) across
  · obtain ⟨t, ts, shape, other⟩ := begins (fun none => by rw [none] at across; cases across) across
    exact ⟨t, ts ++ [.symbol .rbrace], by rw [tokens_append, shape]; rfl, other⟩

theorem IsUnit.tokens_ne_nil (known : IsUnit unit) (form : IsOpen unit ∨ IsClosed unit) :
    tokens unit ≠ [] := by
  obtain ⟨t, ts, shape, _⟩ := exists_begin known.tight form
  rw [shape]
  exact List.cons_ne_nil t ts

theorem getLast?_of_open (tight : Tight unit) (form : IsOpen unit) :
    (unit.flatMap text).getLast? ≠ some '}' := by
  intro last
  obtain ⟨some, across⟩ := form
  obtain ⟨t, rest, token, stands⟩ := tight.last _ (List.getLast?_eq_some_getLast some)
  obtain ⟨front, rfl⟩ := List.getLast?_eq_some_iff.mp
    (token ▸ List.getLast?_eq_some_getLast some)
  have plain : t.isDoc = false := tight.bare (.token t) (by simp)
  rw [token] at stands
  rw [List.flatMap_append, List.flatMap_singleton, List.getLast?_append_of_ne_nil _ stands.text_ne_nil]
    at last
  obtain rfl : t = .symbol .rbrace := eq_rbrace_of_getLast? stands plain last
  rw [tokens_append] at across
  obtain ⟨depth, further, closed⟩ := depthOver_concat across
  have level : depth - 1 = 0 := closed
  simp [Ends.statement, Token.nest, Symbol.isOpen, Symbol.isClose, level, Token.continuesBlock]
    at further

theorem getLast?_of_closed (form : IsClosed unit) : (unit.flatMap text).getLast? = some '}' := by
  obtain ⟨front, rfl, _⟩ := form
  rw [List.flatMap_append]
  exact List.getLast?_concat

/-- A closed unit and what continues it are one. -/
theorem IsUnit.join {g : List Char} (blank : g.all isGapChar = true) (known : IsUnit unit)
    (closed : IsClosed unit) (tight : Tight further) (some : further ≠ []) :
    IsUnit (unit ++ gap g :: further) := by
  have first : unit ≠ [] := by
    obtain ⟨front, rfl, _⟩ := closed
    exact List.append_ne_nil_of_right_ne_nil _ (List.cons_ne_nil _ _)
  refine ⟨known.tight.join blank tight first some, ?_⟩
  have kind := known.kind
  obtain ⟨front, rfl, _⟩ := closed
  rw [ofTokens_closed] at kind
  rw [tokens_append, List.append_assoc, ofTokens_closed, kind]

theorem tokens_join {front : List Piece} {g : List Char} :
    tokens (front ++ [.token (.symbol .rbrace)] ++ gap g :: further) =
      tokens front ++ .symbol .rbrace :: tokens further := by
  rw [tokens_append, tokens_append, List.append_assoc]
  rfl

theorem isOpen_join {g : List Char} (closed : IsClosed unit)
    (across : depthOver .statement 0 (tokens further) = some 0)
    (continued : Token.continuesBlock (tokens further).head? = true) :
    IsOpen (unit ++ gap g :: further) := by
  obtain ⟨front, rfl, nested⟩ := closed
  refine ⟨List.append_ne_nil_of_right_ne_nil _ (List.cons_ne_nil _ _), ?_⟩
  rw [tokens_join, depthOver_continued nested continued, across]

theorem isClosed_join {g : List Char} (closed : IsClosed unit) (closed' : IsClosed further)
    (continued : Token.continuesBlock (tokens further).head? = true) :
    IsClosed (unit ++ gap g :: further) := by
  obtain ⟨front, rfl, nested⟩ := closed
  obtain ⟨front', rfl, nested'⟩ := closed'
  refine ⟨front ++ [.token (.symbol .rbrace)] ++ gap g :: front', by simp, ?_⟩
  have head : (tokens (front' ++ [.token (.symbol .rbrace)])).head? = (tokens front').head? := by
    rw [tokens_append]
    refine List.head?_append_of_ne_nil _ fun none => ?_
    rw [none] at nested'
    cases nested'
  rw [head] at continued
  rw [tokens_join, depthOver_continued nested continued, nested']

end Units

section Calls

theorem callArguments_texts {a : String} {others : List String} (before : List Char)
    (lead : List Piece) (known : ∀ b ∈ a :: others, IsArgument b)
    (blank : ∀ c ∈ lead.flatMap text, isBlank c = true) (none : tokens lead = [])
    (whole : src.text = before ++ (lead ++ rawPieces a ++
      ((others.map rawPieces).flatMap (commaPieces ++ ·) ++
        token (.symbol .rparen) :: more)).flatMap text) :
    ∃ bounds closing before', callArguments 0 (byteLength before) (ahead (byteLength before)
        (lead ++ rawPieces a ++ ((others.map rawPieces).flatMap (commaPieces ++ ·) ++
          token (.symbol .rparen) :: more))) =
        some (bounds, closing, ahead (byteLength before') more) ∧
      src.text = before' ++ more.flatMap text ∧
      ∀ c, (bounds.mapM fun bound => cut bound.1 bound.2).on src c = .ok (a :: others, c) := by
  induction others generalizing a before lead with
  | nil =>
    let place := before ++ (lead ++ rawPieces a).flatMap text
    have here := known a List.mem_cons_self
    have split : src.text = place ++ [')'] ++ more.flatMap text := by
      rw [whole]
      simp [place, text, Token.text, Symbol.text]
    refine ⟨[(byteLength before, byteLength place)], ⟨.symbol .rparen, byteLength place, byteLength place + 1⟩,
      place ++ [')'], ?_, split, fun c => ?_⟩
    · rw [byteLength_append _ [')']]
      exact callArguments_text before .rparen more none here
    · rw [List.append_assoc] at split
      rw [List.mapM_cons, on_bind_of_ok (on_cut_argument blank here split c)]
      rfl
  | cons b others ih =>
    obtain ⟨here, known⟩ := List.forall_mem_cons.mp known
    let place := before ++ (lead ++ rawPieces a).flatMap text
    let behind := rawPieces b ++ ((others.map rawPieces).flatMap (commaPieces ++ ·) ++
      token (.symbol .rparen) :: more)
    have shape : ((b :: others).map rawPieces).flatMap (commaPieces ++ ·) ++
        token (.symbol .rparen) :: more = token (.symbol .comma) :: ([gap [' ']] ++ behind) := by
      simp [commaPieces, behind]
    rw [shape] at whole ⊢
    have split : src.text = place ++ [','] ++ ([gap [' ']] ++ behind).flatMap text := by
      rw [whole]
      simp [place, text, Token.text, Symbol.text]
    obtain ⟨bounds, closing, before', found, left, others⟩ := ih (place ++ [',']) [gap [' ']] known
      (List.forall_mem_singleton.mpr (by decide)) rfl (by rw [split]; simp [behind])
    refine ⟨(byteLength before, byteLength place) :: bounds, closing, before', ?_, left, fun c => ?_⟩
    · rw [byteLength_append place, List.append_assoc] at found
      rw [callArguments_text before .comma _ none here, callArguments_cons]
      exact congrArg (Option.map fun found => ((byteLength before, byteLength place) :: found.1, found.2))
        found
    · rw [List.append_assoc] at split
      rw [List.mapM_cons, on_bind_of_ok (on_cut_argument blank here split c),
        on_bind_of_ok (others c)]
      rfl

theorem takes_callArgs_texts {args : List String} (some : args ≠ [""])
    (known : ∀ a ∈ args, IsArgument a) :
    Takes src callArgs (token (.symbol .lparen) ::
      (separatedBy commaPieces (args.map rawPieces) ++ [token (.symbol .rparen)])) more
      (· = args) := by
  cases args with
  | nil => exact takes_callArgs_nil
  | cons a others =>
    refine ⟨fun {c before} here => ?_⟩
    have shape : separatedBy commaPieces ((a :: others).map rawPieces) ++ [token (.symbol .rparen)] ++
        more = [] ++ rawPieces a ++ ((others.map rawPieces).flatMap (commaPieces ++ ·) ++
          token (.symbol .rparen) :: more) := by
      simp [separatedBy]
    rw [List.cons_append, shape] at here
    have opened : At src c.next (before ++ ['(']) _ := here.next rfl
    obtain ⟨bounds, closing, before', found, left, cuts⟩ :=
      callArguments_texts _ [] known (List.forall_mem_nil _) rfl opened.text
    have start : (c.rest.head?.map (·.start)).getD src.stop + 1 = byteLength (before ++ ['(']) := by
      rw [here.rest_token rfl, byteLength_append _ ['(']]
      rfl
    have opens : c.rest.head?.map (·.token) = Option.some (.symbol .lparen) := here.head
    refine ⟨a :: others, { c.next with rest := ahead (byteLength before') more, lastStop := closing.stop },
      before', ?_, ⟨left, rfl⟩, rfl⟩
    rw [on_callArgs, if_pos opens, start, opened.rest, found]
    simp only [cuts, Except.bind, if_neg some]

theorem takes_endDeclaration_java (java : src.dialect = .java) :
    Takes src endDeclaration [token (.symbol .semicolon)] more fun _ => True := by
  refine ⟨fun {c before} here => ⟨⟨⟩, c.next, _, ?_, here.next rfl, trivial⟩⟩
  rw [on_endDeclaration, java]
  exact here.expect

end Calls

section Steps

/-- A statement read from the pieces, with their text. -/
def IsLine (pieces : List Piece) (a : Option Statement) : Prop :=
  ∃ s, a = some s ∧ (s.text .java).toList = pieces.flatMap text

theorem takes_unit {pieces : List Piece} (tight : Tight unit)
    (form : IsOpen unit ∨ IsClosed unit)
    (begins : ∃ others, pieces ++ more = unit ++ others)
    (kind : StatementHead.ofTokens (tokens (pieces ++ more)) = .other)
    (read : Takes src rawStatement pieces more (· = String.ofList (unit.flatMap text)))
    (same : ∀ span, ((Statement.other (String.ofList (unit.flatMap text)) span).text .java).toList =
      pieces.flatMap text) :
    Takes src blockStep pieces more fun found => ∃ a, found = some a ∧ IsLine pieces a := by
  obtain ⟨t, ts, shape, semicolon, brace⟩ := exists_begin tight form
  obtain ⟨others, split⟩ := begins
  have head : (tokens (pieces ++ more)).head? = some t := by
    rw [split, tokens_append, shape]
    rfl
  refine takes_blockStep_of_statement head brace ?_
  refine takes_statement_of_head .other ?_ ?_ fun start => ?_
  · rw [head]
    simpa using semicolon
  · rw [ofTokens_take, kind]
  · refine read.finish fun _ given => ?_
    subst given
    exact (takes_spanFrom start).finish fun span _ => .pure (same span)

theorem takes_unit_open (java : src.dialect = .java) (known : IsUnit unit) (form : IsOpen unit) :
    Takes src blockStep (unit ++ [.token (.symbol .semicolon)]) more
      fun found => ∃ a, found = some a ∧ IsLine (unit ++ [.token (.symbol .semicolon)]) a := by
  have last := getLast?_of_open known.tight form
  refine takes_unit known.tight (.inl form) ⟨_, List.append_assoc _ _ _⟩ ?_
    (takes_rawStatement_open java known.tight form.2) fun span => ?_
  · rw [← known.kind, List.append_assoc, tokens_append]
    exact ofTokens_end (.inl rfl) _ _
  · rw [Statement.text, String.toList_ofList, if_neg last]
    simp [text, Token.text, Symbol.text, Dialect.terminator]

theorem takes_unit_closed (java : src.dialect = .java) (known : IsUnit unit)
    (form : IsClosed unit) (other : Token.continuesBlock (tokens more).head? = false) :
    Takes src blockStep unit more fun found => ∃ a, found = some a ∧ IsLine unit a := by
  have last := getLast?_of_closed form
  refine takes_unit known.tight (.inr form) ⟨_, rfl⟩ ?_
    (takes_rawStatement_closed java known.tight form other) fun span => ?_
  · have kind := known.kind
    obtain ⟨front, rfl, _⟩ := form
    rw [ofTokens_closed] at kind
    rw [tokens_append, ofTokens_closed, kind]
  · rw [Statement.text, String.toList_ofList, if_pos last, String.toList_ofList]

theorem takes_callStatement_texts (java : src.dialect = .java) {word : Keyword}
    {args : List String} (some : args ≠ [""]) (known : ∀ a ∈ args, IsArgument a) :
    Takes src callStatement (Statement.callTextPieces word args) more (· = args) := by
  have shape : Statement.callTextPieces word args = token (.keyword word) ::
      ((token (.symbol .lparen) :: (separatedBy commaPieces (args.map rawPieces) ++
        [token (.symbol .rparen)])) ++ [token (.symbol .semicolon)]) := by
    simp [Statement.callTextPieces]
  rw [shape]
  refine (takes_advance rfl).step fun _ _ => (takes_callArgs_texts some known).bind fun _ given => ?_
  subst given
  exact (takes_endDeclaration_java java).finish fun _ _ => .pure rfl

theorem takes_callLine (java : src.dialect = .java) {word : Keyword} {head : StatementHead}
    {form : List String → Span → Statement} {args : List String} (some : args ≠ [""])
    (known : ∀ a ∈ args, IsArgument a)
    (kind : ∀ ts, StatementHead.ofTokens (.keyword word :: .symbol .lparen :: ts) = head)
    (reads : ∀ start, statementFrom start head =
      (do return form (← callStatement) (← spanFrom start)))
    (same : ∀ span, ((form args span).text .java).toList =
      (Statement.callTextPieces word args).flatMap text) :
    Takes src blockStep (Statement.callTextPieces word args) more
      fun found => ∃ a, found = Option.some a ∧ IsLine (Statement.callTextPieces word args) a := by
  refine takes_blockStep_of_statement (t := .keyword word) rfl nofun ?_
  refine takes_statement_of_head head (by nofun) ?_ fun start => ?_
  · rw [ofTokens_take]
    exact kind _
  · rw [reads]
    refine (takes_callStatement_texts java some known).finish fun _ given => ?_
    subst given
    exact (takes_spanFrom start).finish fun span _ => .pure (same span)

theorem takes_assignment (java : src.dialect = .java) {q : Bool} {field value : String}
    (known : IsExpression value) (start : Nat) :
    Takes src (assignment q start)
      (Statement.assignPieces field value ++ [token (.symbol .semicolon)]) more
      fun s => ∃ span, s = .assign q field value span := by
  refine (takes_identifier field).step fun _ given => ?_
  subst given
  refine .gap ((takes_expect .equals).step fun _ _ => .gap ?_)
  refine (takes_expression java known (.inl rfl)).bind fun _ given => ?_
  subst given
  refine (takes_endDeclaration_java java).finish fun _ _ => ?_
  exact (takes_spanFrom start).finish fun span _ => .pure ⟨span, rfl⟩

theorem textPieces_open {text : String} (span : Span) (raw : IsRaw text)
    (form : IsOpen (rawPieces text)) : ¬(Statement.other text span).EndsInBlock ∧
      (Statement.other text span).textPieces =
        rawPieces text ++ [token (.symbol .semicolon)] := by
  have last : text.toList.getLast? ≠ some '}' :=
    raw.whole ▸ getLast?_of_open raw.raw.tight form
  exact ⟨last, congrArg (rawPieces text ++ ·) (if_neg last)⟩

theorem textPieces_closed {text : String} (span : Span) (raw : IsRaw text)
    (form : IsClosed (rawPieces text)) : (Statement.other text span).EndsInBlock ∧
      (Statement.other text span).textPieces = rawPieces text := by
  have last : text.toList.getLast? = some '}' := raw.whole ▸ getLast?_of_closed form
  exact ⟨last, (congrArg (rawPieces text ++ ·) (if_pos last)).trans (List.append_nil _)⟩

/-- Other statements are units, printed with a terminator or through a block. -/
theorem exists_form {text : String} (span : Span) (known : IsStatement text) :
    IsUnit (rawPieces text) ∧
      ((¬(Statement.other text span).EndsInBlock ∧ IsOpen (rawPieces text) ∧
          (Statement.other text span).textPieces =
            rawPieces text ++ [token (.symbol .semicolon)]) ∨
        (Statement.other text span).EndsInBlock ∧ IsClosed (rawPieces text) ∧
          (Statement.other text span).textPieces = rawPieces text) := by
  refine ⟨⟨known.raw.raw.tight, known.kind⟩, known.form.imp (fun form => ?_) fun form => ?_⟩
  · obtain ⟨last, shape⟩ := textPieces_open span known.raw form
    exact ⟨last, form, shape⟩
  · obtain ⟨last, shape⟩ := textPieces_closed span known.raw form
    exact ⟨last, form, shape⟩

theorem takes_line (java : src.dialect = .java) {s : Statement} (readable : s.Readable)
    (ends : ¬s.EndsInBlock) : Takes src blockStep s.textPieces more
      fun found => ∃ a, found = some a ∧ IsLine s.textPieces a := by
  have same := (Statement.flatMap_text_textPieces readable).symm
  cases s with
  | superCall args span =>
    exact takes_callLine java readable.1 readable.2 (fun _ => rfl) (fun _ => rfl) fun _ => same
  | thisCall args span =>
    exact takes_callLine java readable.1 readable.2 (fun _ => rfl) (fun _ => rfl) fun _ => same
  | assign qualified field value span =>
    obtain ⟨_, known, other⟩ := readable
    have assigned : (tokens (rawPieces value ++ [token (.symbol .semicolon)] ++ more)).head? ≠
        some (.symbol .equals) := by
      rw [List.append_assoc, tokens_append, List.head?_append]
      cases head : (tokens (rawPieces value)).head? with
      | none => nofun
      | some t => exact fun same => other (head.trans same)
    have read (start : Nat) {q : Bool} : Takes src (assignment q start)
        (Statement.assignPieces field value ++ [token (.symbol .semicolon)]) more
        fun s => ∃ span, s = .assign q field value span :=
      takes_assignment java known start
    cases qualified with
    | false =>
      refine takes_blockStep_of_statement (t := .name field) rfl nofun ?_
      refine takes_statement_of_head (.assignment false) (by nofun) ?_ fun start =>
        (read start).weaken ?_
      · rw [ofTokens_take]
        exact if_neg assigned
      · rintro _ ⟨span, rfl⟩
        exact same
    | true =>
      refine takes_blockStep_of_statement (t := .keyword .thisWord) rfl nofun ?_
      refine takes_statement_of_head (.assignment true) (by nofun) ?_ fun start => ?_
      · rw [ofTokens_take]
        exact if_neg assigned
      · refine (takes_advance rfl).step fun _ _ => (takes_advance rfl).step fun _ _ => ?_
        refine (read start).weaken ?_
        rintro _ ⟨span, rfl⟩
        exact same
  | other text span =>
    obtain ⟨known, ⟨_, form, shape⟩ | ⟨through, _⟩⟩ := exists_form span readable
    · rw [shape]
      exact takes_unit_open java known form
    · exact absurd through ends

end Steps

section Lines

/-- Lines are read again, each or several at a time, and what is read is printed as they are. -/
abbrev Rereads (src : Source) (lines more : List Piece) : Prop :=
  Repeats src blockStep lines more fun found =>
    '\n' :: (linesText (found.filterMap id)).toList = lines.flatMap text ++ ['\n']

/-- What stands in front of a statement on a line of its own. -/
def linePiece : Piece :=
  gap ('\n' :: indentUnit.toList)

theorem Rereads.line {pieces lines : List Piece}
    (taken : Takes src blockStep pieces (lines ++ more)
      fun found => ∃ a, found = some a ∧ IsLine pieces a)
    (some : tokens pieces ≠ []) (others : Rereads src lines more) :
    Rereads src (linePiece :: pieces ++ lines) more := by
  refine Repeats.cons (A := IsLine pieces) (.gap taken) some others fun a as here behind => ?_
  obtain ⟨s, rfl, same⟩ := here
  have found : (Option.some s :: as).filterMap id = s :: as.filterMap id := rfl
  rw [found, toList_linesText_cons, same, behind]
  simp [linePiece, text]

theorem exists_further {s : Statement} (readable : s.Readable) (settled : ¬s.Unsettled)
    (continued : Token.continuesBlock (tokens s.textPieces).head? = true) :
    ∃ further, Tight further ∧ further ≠ [] ∧ tokens further ≠ [] ∧
      ((depthOver .statement 0 (tokens further) = some 0 ∧
          s.textPieces = further ++ [token (.symbol .semicolon)]) ∨
        s.EndsInBlock ∧ IsClosed further ∧ s.textPieces = further) := by
  cases s with
  | superCall args span | thisCall args span => cases continued
  | assign qualified field value span =>
    cases qualified with
    | true => cases continued
    | false =>
      have given : value ≠ "" := fun none => settled ⟨continued, .inl none⟩
      have across : depthOver .statement 0 (tokens (rawPieces value)) = some 0 :=
        Decidable.of_not_not fun other => settled ⟨continued, .inr other⟩
      have some : rawPieces value ≠ [] := by
        intro none
        have whole := readable.2.1.1.whole
        rw [none] at whole
        exact given (String.toList_inj.mp whole.symm)
      have name : Tight [token (.name field)] :=
        tight_token (wordToken_of_isName readable.1 ▸ stands_word (.inl readable.1) (breaks_space [] []))
          rfl
      have stands : (token (.symbol .equals)).Stands [] := stands_symbol nofun
      have equals : Tight [token (.symbol .equals)] := tight_token stands rfl
      have assigned := equals.join (g := [' ']) (by decide) readable.2.1.1.raw.tight nofun some
      exact ⟨Statement.assignPieces field value, name.join (by decide) assigned nofun nofun, nofun,
        nofun, .inl ⟨across, rfl⟩⟩
  | other text span =>
    obtain ⟨known, form⟩ := exists_form span readable
    have some := known.tokens_ne_nil (form.imp (·.2.1) (·.2.1))
    refine ⟨rawPieces text, known.tight, fun none => some (congrArg tokens none), some, ?_⟩
    exact form.imp_left fun form => ⟨form.2.1.2, form.2.2⟩

theorem tokens_textPieces_ne_nil {s : Statement} (readable : s.Readable) :
    tokens s.textPieces ≠ [] := by
  cases s with
  | superCall args span | thisCall args span => nofun
  | assign qualified field value span => cases qualified <;> nofun
  | other text span =>
    obtain ⟨known, form⟩ := exists_form span readable
    rw [Statement.textPieces, tokens_append]
    exact List.append_ne_nil_of_left_ne_nil (known.tokens_ne_nil (form.imp (·.2.1) (·.2.1))) _

/-- The lines of statements are read again where they stand, and so they are behind a closed unit,
which takes in those that go on with it. -/
theorem rereads_lines (java : src.dialect = .java) (done : Takes src blockStep [] more (· = none))
    (ends : Token.continuesBlock (tokens more).head? = false) {statements : List Statement}
    (readable : ∀ s ∈ statements, s.Readable) (settled : Settled statements) :
    Rereads src (statements.flatMap Statement.lineOf) more ∧
      ∀ unit, IsUnit unit → IsClosed unit → (∀ s ∈ statements.head?, ¬s.Unsettled) →
        Rereads src (linePiece :: unit ++ statements.flatMap Statement.lineOf) more := by
  induction statements with
  | nil =>
    refine ⟨.done done rfl, fun unit known closed _ => ?_⟩
    exact .line (takes_unit_closed java known closed ends) (known.tokens_ne_nil (.inr closed))
      (.done done rfl)
  | cons s others ih =>
    obtain ⟨here, readable⟩ := List.forall_mem_cons.mp readable
    obtain ⟨lines, behind⟩ := ih readable settled.tail
    have next (through : s.EndsInBlock) : ∀ s' ∈ others.head?, ¬s'.Unsettled := by
      intro s' head
      obtain ⟨others, rfl⟩ := List.head?_eq_some_iff.mp head
      exact settled.rel through
    have alone : Rereads src ((s :: others).flatMap Statement.lineOf) more := by
      by_cases through : s.EndsInBlock
      · cases s with
        | superCall | thisCall | assign => exact absurd through id
        | other text span =>
          obtain ⟨known, ⟨other, _⟩ | ⟨_, closed, shape⟩⟩ := exists_form span here
          · exact absurd through other
          · have whole := behind _ known closed (next through)
            rwa [← shape] at whole
      · exact .line (takes_line java here through) (tokens_textPieces_ne_nil here) lines
    refine ⟨alone, fun unit known closed settles => ?_⟩
    have some := known.tokens_ne_nil (.inr closed)
    cases continued : Token.continuesBlock (tokens s.textPieces).head? with
    | false =>
      refine .line (takes_unit_closed java known closed ?_) some alone
      rw [List.flatMap_cons, Statement.lineOf, List.append_assoc, List.cons_append, tokens_gap,
        tokens_append, List.head?_append_of_ne_nil _ (tokens_textPieces_ne_nil here), continued]
    | true =>
      obtain ⟨further, tight, some', left, form⟩ := exists_further here (settles s rfl) continued
      have joined := known.join (g := '\n' :: indentUnit.toList) (by decide) closed tight some'
      rw [List.flatMap_cons, Statement.lineOf]
      rcases form with ⟨across, shape⟩ | ⟨through, closed', shape⟩ <;> rw [shape] at continued ⊢
      · rw [tokens_append, List.head?_append_of_ne_nil _ left] at continued
        have line := Rereads.line (takes_unit_open java joined (isOpen_join closed across continued))
          (by rw [tokens_append]; exact List.append_ne_nil_of_right_ne_nil _ (List.cons_ne_nil _ _))
          lines
        simpa [linePiece] using line
      · have line := behind _ joined (isClosed_join closed closed' continued) (next through)
        simpa [linePiece] using line

end Lines

section Bodies

theorem takes_block_text (java : src.dialect = .java) {b : Block}
    (readable : ∀ s ∈ b.statements, s.Readable) (settled : Settled b.statements) :
    Takes src block (.token (.symbol .lbrace) ::
      (b.statements.flatMap Statement.lineOf ++ [.gap ['\n'], .token (.symbol .rbrace)])) more
      (·.text .java indentUnit = b.text .java indentUnit) := by
  have done : Takes src blockStep [] ([.gap ['\n'], .token (.symbol .rbrace)] ++ more) (· = none) := by
    refine (takes_sees .rbrace).look fun _ same => ?_
    subst same
    exact .pure rfl
  refine takes_nextStart.look fun start _ => ?_
  refine (takes_expect .lbrace).step fun _ _ => ?_
  refine (rereads_lines java done rfl readable settled).1.takes.bind fun found same => ?_
  refine .gap ((takes_expect .rbrace).finish fun _ _ => ?_)
  refine (takes_spanFrom start).finish fun _ _ => .pure ?_
  rw [← flatMap_text_lines readable] at same
  have lines := String.toList_inj.mp (List.cons.inj same).2
  rw [linesText, linesText] at lines
  rw [Block.text, Block.text, lines]

theorem takes_skipDefault_none (other : (tokens more).head? ≠ some (.name "default")) :
    Takes src skipDefault [] more fun _ => True := by
  refine (takes_acceptToken_none other).look fun _ same => ?_
  subst same
  exact .pure trivial

/-- A body, or what stands for none, is read again with the same text. -/
theorem takes_body?_text (java : src.dialect = .java) {m : MethodDecl}
    (readable : ∀ s ∈ m.statements, s.Readable) (settled : Settled m.statements) :
    Takes src body? m.bodyPieces more
      fun found => found.map (·.text .java indentUnit) = m.body.map (·.text .java indentUnit) := by
  rw [MethodDecl.statements] at readable settled
  rw [MethodDecl.bodyPieces]
  cases given : m.body with
  | none =>
    refine (takes_sees .lbrace).look fun _ same => ?_
    subst same
    refine (takes_skipDefault_none (by simp)).look fun _ _ => ?_
    exact (takes_endDeclaration_java java).finish fun _ _ => .pure rfl
  | some b =>
    rw [given] at readable settled
    refine .gap ((takes_sees .lbrace).look fun _ same => ?_)
    subst same
    exact (takes_block_text java readable settled).finish fun _ same => .pure (congrArg some same)

end Bodies

end Parser

end CreatorSynth
