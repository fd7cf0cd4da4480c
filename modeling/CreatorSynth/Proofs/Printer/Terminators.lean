import CreatorSynth.Proofs.Parser.Nesting
import CreatorSynth.Proofs.Parser.Spacing
import CreatorSynth.Proofs.Token.Separators

/-! The semicolons of a Java body. A statement that is kept as text ends with the brace of its last
block, so that a semicolon behind the brace stands for no statement and is not printed. Of a body
whose lines all end with a semicolon those are lost that stand behind a brace. -/
namespace CreatorSynth
open Text

/-- The tokens of a stretch of a text, if it is cut into tokens. -/
def Span.tokensIn (text : String) (s : Span) : Option (List Token) :=
  (slice? text.toList s.start s.stop).bind fun cs => tokenSequence (String.ofList cs)

theorem Piece.Sewn.doc_not_mem {pieces : List Piece} {raws : List (List Piece)} {rest : List Char}
    (sewn : Sewn rest pieces raws) (s : String) : token (.doc s) ∉ pieces := by
  induction sewn with
  | nil => nofun
  | plain plain loose _ ih =>
    intro member
    rcases List.mem_cons.mp member with rfl | behind
    · rcases loose with stands | ⟨g, same, _⟩
      · obtain ⟨_, opens, _⟩ := isDocumentation_of_next? stands
        have slash : '/' ∈ (token (.doc s)).text := opens.subset List.mem_cons_self
        exact (plain _ slash).2.2 rfl
      · cases same
    · exact ih behind
  | raw standing _ _ ih =>
    intro member
    rcases List.mem_append.mp member with inside | behind
    · cases standing.bare _ inside
    · exact ih behind

namespace Parser
open Piece

section Printed

theorem tokens_lines (statements : List Statement) :
    tokens (statements.flatMap Statement.lineOf) =
      statements.flatMap fun s => tokens s.textPieces := by
  induction statements with
  | nil => rfl
  | cons s others ih =>
    rw [List.flatMap_cons, List.flatMap_cons, tokens_append, ih]
    rfl

theorem tokenSequence_block {b : Block} (readable : ∀ s ∈ b.statements, s.Readable)
    (unclosed : Unclosed (b.statements.flatMap Statement.raws)) :
    tokenSequence (b.text .java indentUnit) = some (.symbol .lbrace ::
      ((b.statements.flatMap fun s => tokens s.textPieces) ++ [.symbol .rbrace])) := by
  have sewn : Sewn [] b.textPieces (b.statements.flatMap Statement.raws) := sewn_block readable
  have cuts := tokenize_of_fit (sewn.fit_nil unclosed)
  rw [Block.flatMap_text_textPieces readable, String.ofList_toList] at cuts
  have printed := map_token_locate sewn.doc_not_mem 0
  have whole : tokens b.textPieces = .symbol .lbrace ::
      (tokens (b.statements.flatMap Statement.lineOf) ++ [.symbol .rbrace]) := by
    rw [Block.textPieces, tokens_gap, tokens_symbol, tokens_append]
    rfl
  rw [tokenSequence, cuts, ← tokens_lines, ← whole, ← printed]
  rfl

end Printed

section Source

variable {α β : Type} {src : Source} {p q : Parser α} {f : α → Parser β} {A : α → Prop}
  {B : β → Prop}

/-- Where the parse of a Java source without comments stands, the answer is as said. -/
structure Answers (src : Source) (p : Parser α) (A : α → Prop) : Prop where
  answer : ∀ {c before pieces a c'}, Standing src c before pieces → p.on src c = .ok (a, c') → A a

namespace Answers

theorem bind [Onward p] {G : α → Prop} (first : Answers src p A) (gives : Gives p G)
    (second : ∀ a, A a → Answers src (f a) B) : Answers src (p >>= f) B := by
  refine ⟨fun standing run => ?_⟩
  obtain ⟨a, mid, run, later⟩ := on_bind_eq_ok.mp run
  obtain ⟨taken, moves⟩ := Onward.onward run
  have worded := (gives.gives standing.worded run).1
  obtain ⟨used, more, rfl, behind, _⟩ := standing.past moves.rest worded
  exact (second a (first.answer standing run)).answer behind later

theorem skip [Onward p] {G : α → Prop} (gives : Gives p G) (second : ∀ a, Answers src (f a) B) :
    Answers src (p >>= f) B :=
  .bind (A := fun _ => True) ⟨fun _ _ => trivial⟩ gives fun a _ => second a

theorem pure {a : α} (known : A a) : Answers src (Pure.pure a) A :=
  ⟨fun _ run => by cases run; exact known⟩

theorem ite {condition : Prop} [Decidable condition] (yes : condition → Answers src p A)
    (no : ¬condition → Answers src q A) : Answers src (if condition then p else q) A := by
  split
  · exact yes ‹_›
  · exact no ‹_›

end Answers

/-- The block was read where a parse of the source stood. -/
def ReadFrom (src : Source) (b : Block) : Prop :=
  ∃ c c' before pieces, Standing src c before pieces ∧ block.on src c = .ok (b, c')

/-- The bodies of methods and constructors were. -/
def BodiesRead (src : Source) (members : List Member) : Prop :=
  ∀ m, .constructor m ∈ members ∨ .method m ∈ members → ∀ b ∈ m.body, ReadFrom src b

section Members

variable {className name : String} {modifiers : Modifiers} {typeParams : List TypeParam}
  {returnType : Option TypeRef} {start : Nat} {doc : Option String}

theorem answers_block : Answers src block (ReadFrom src) :=
  ⟨fun standing run => ⟨_, _, _, _, standing, run⟩⟩

theorem answers_body? : Answers src body? fun found => ∀ b ∈ found, ReadFrom src b := by
  refine .skip .quiet fun _ => .ite (fun _ => ?_) fun _ => ?_
  · exact answers_block.bind .quiet fun b read => .pure fun b' same => Option.some.inj same ▸ read
  · exact .skip .quiet fun _ => .skip .quiet fun _ => .pure nofun

theorem answers_methodRest :
    Answers src (methodRest modifiers typeParams returnType name start doc)
      fun m => ∀ b ∈ m.body, ReadFrom src b := by
  refine .skip .quiet fun params => .skip .quiet fun dims => .skip .quiet fun throws => ?_
  exact answers_body?.bind .quiet fun body read => .skip .quiet fun span => .pure read

theorem bodiesRead_callable {m : MethodDecl} {member : Member}
    (same : member = .constructor m ∨ member = .method m) (read : ∀ b ∈ m.body, ReadFrom src b) :
    BodiesRead src [member] := by
  intro m' among
  simp only [List.mem_singleton] at among
  rcases same with rfl | rfl <;> rcases among with same | same <;> cases same <;> exact read

theorem answers_methodOrFields :
    Answers src (methodOrFields modifiers typeParams start doc) (BodiesRead src) := by
  refine .skip .quiet fun type => .skip .quiet fun name => .skip .quiet fun _ =>
    .ite (fun _ => ?_) fun _ => ?_
  · exact answers_methodRest.bind .quiet fun m read => .pure (bodiesRead_callable (.inr rfl) read)
  · refine ⟨fun standing run m among => ?_⟩
    have fields := (gives_fields.gives standing.worded run).2
    rcases among with member | member <;> obtain ⟨f, same⟩ := fields _ member <;> cases same

theorem answers_typedMember :
    Answers src (typedMember className modifiers start doc) (BodiesRead src) := by
  refine .skip .quiet fun typeParams => .skip .quiet fun next => .ite (fun _ => ?_) fun _ =>
    .ite (fun _ => ?_) fun _ => answers_methodOrFields
  · rw [compactConstructor, bind_assoc]
    refine .skip .quiet fun name => ?_
    rw [bind_assoc]
    refine answers_block.bind .quiet fun b read => ?_
    rw [bind_assoc]
    refine .skip .quiet fun span => .pure (bodiesRead_callable (.inl rfl) fun b' same => ?_)
    exact Option.some.inj same ▸ read
  · refine .skip .quiet fun name => answers_methodRest.bind .quiet fun m read => ?_
    exact .pure (bodiesRead_callable (.inl rfl) read)

theorem bodiesRead_of_none {members : List Member}
    (none : ∀ m, .constructor m ∉ members ∧ .method m ∉ members) : BodiesRead src members :=
  fun m among => among.elim (fun member => absurd member (none m).1) fun member =>
    absurd member (none m).2

theorem answers_member : Answers src (member className) (BodiesRead src) := by
  refine .skip .quiet fun start => .skip .quiet fun _ =>
    .ite (fun _ => .pure (bodiesRead_of_none (by simp))) fun _ => ?_
  have block : Answers src (initializerBlock? start) fun found =>
      ∀ m ∈ found, ∃ isStatic span, m = .initializer isStatic span := by
    refine ⟨fun standing run => ?_⟩
    obtain ⟨_, _, _, _, _, _, _, _, known, _⟩ := draws_initializerBlock?.draw standing rfl run
    exact known
  refine block.bind (gives_initializerBlock? start) fun found known => ?_
  cases found with
  | some m =>
    obtain ⟨isStatic, span, rfl⟩ := known m rfl
    exact .pure (bodiesRead_of_none (by simp))
  | none =>
    refine .skip .quiet fun doc => .skip .quiet fun modifiers => .skip .quiet fun _ =>
      .ite (fun _ => ?_) fun _ => ?_
    · exact .skip (gives_classDecl modifiers start doc) fun id => .skip .quiet fun span =>
        .pure (bodiesRead_of_none (by simp))
    · exact answers_typedMember.bind .quiet fun members read => .skip .quiet fun _ => .pure read

end Members

theorem span_of_block {c c' : Cursor} {b : Block} (run : block.on src c = .ok (b, c')) :
    b.span = ⟨startAt src c, max c'.lastStop (startAt src c)⟩ := by
  rw [block, on_bind_of_ok on_nextStart] at run
  obtain ⟨_, _, _, run⟩ := on_bind_eq_ok.mp run
  obtain ⟨_, _, _, run⟩ := on_bind_eq_ok.mp run
  obtain ⟨_, _, _, run⟩ := on_bind_eq_ok.mp run
  rw [on_bind_of_ok (on_spanFrom _)] at run
  cases run
  rfl

/-- The stretch of the source where a block stands is made of its braces and its lines. -/
theorem ReadFrom.lined {b : Block} (read : ReadFrom src b) :
    ∃ cs lines, slice? src.text b.span.start b.span.stop = some cs ∧
      tokenSequence (String.ofList cs) = some (.symbol .lbrace :: (lines ++ [.symbol .rbrace])) ∧
      Lined lines b.statements ∧ (∀ s ∈ b.statements, s.Readable) ∧
      Unclosed (b.statements.flatMap Statement.raws) := by
  obtain ⟨c, c', before, pieces, standing, run⟩ := read
  obtain ⟨used, more, before', raws, split, behind, holds, readable, rfl, lines, shape, lined⟩ :=
    draws_block.draw standing rfl run
  have unclosed := (holds.followed more).unclosed (split ▸ standing.stand)
  obtain ⟨taken, moves⟩ := Onward.onward run
  obtain ⟨gaps, raw, left, rfl, none, known, inner, behind', rfl⟩ :=
    standing.stretch moves.rest behind.worded
  have tokens : tokens raw = .symbol .lbrace :: (lines ++ [.symbol .rbrace]) := by
    have whole : tokens raw ++ tokens left = .symbol .lbrace :: (lines ++ [.symbol .rbrace]) ++ tokens left := by
      rw [tokens_append, tokens_append, none, ← behind.map_token, behind'.map_token] at shape
      simpa using shape
    exact List.append_cancel_right whole
  have some : raw ≠ [] := by
    rintro rfl
    cases tokens
  have start := startAt_tight inner known.tight some
  have stop : c'.lastStop = startAt src c + byteLength (raw.flatMap text) := by
    have last := known.tight.stopOver some (startAt src c) (Option.some c.lastStop)
    rw [moves.lastStop, ← start, ← Option.some_inj, ← last, stopOver]
    cases (ahead (startAt src c) raw).getLast? <;> rfl
  refine ⟨raw.flatMap text, lines, ?_, by rw [known.tokenSequence, tokens], lined, readable, unclosed⟩
  rw [span_of_block run, stop, Nat.max_eq_left (Nat.le_add_right _ _), start, inner.text,
    List.flatMap_append, ← List.append_assoc]
  exact slice?_append _ _ _

end Source

section Lines

variable {ts us line : List Token} {depth : Nat}

/-- Tokens wherever they stand. -/
def unplaced (ts : List Token) : List Located :=
  ts.map fun t => ⟨t, 0, 0⟩

theorem unplaced_append : unplaced (ts ++ us) = unplaced ts ++ unplaced us :=
  List.map_append

theorem awaitBehind_unplaced_append {awaited : List Symbol} (us : List Token)
    (read : awaitBehind awaited (unplaced (ts ++ us)) ≠ none) :
    awaitBehind awaited (unplaced ts) ≠ none := by
  intro stuck
  rw [unplaced_append, awaitBehind_append, stuck] at read
  exact read rfl

theorem nest_of_await {t : Token} {awaited next : List Symbol}
    (known : t.await awaited = some next) (outer : Nat) :
    t.nest (awaited.length + outer) = next.length + outer := by
  rcases t.await_cases with ⟨s, closing, rfl, _, opens, nest⟩ | ⟨closing, rfl, _, closes, nest⟩ |
    ⟨plain, nest⟩
  · rw [opens] at known
    cases known
    rw [nest, List.length_cons]
    omega
  · rw [closes] at known
    split at known
    · rename_i head
      obtain ⟨others, rfl⟩ := List.head?_eq_some_iff.mp head
      cases known
      rw [nest, List.length_cons, List.tail_cons]
      omega
    · cases known
  · rw [plain] at known
    cases known
    exact nest _

theorem depthOver_inside {inner inner' : List Symbol}
    (nests : awaitBehind inner (unplaced ts) = some inner') :
    depthOver .expression (inner.length + 1) ts = some (inner'.length + 1) := by
  induction ts generalizing inner with
  | nil =>
    cases nests
    rfl
  | cons t ts ih =>
    obtain ⟨next, first, behind⟩ := Option.bind_eq_some_iff.mp nests
    rw [depthOver, nest_of_await first]
    exact ih behind

theorem passed_of_depthOver {ends : CreatorSynth.Ends} {bound : Symbol}
    (stops : ∀ next, ends 0 (.symbol bound) next = true)
    (across : depthOver ends depth ts = some 0) : Passed bound depth (unplaced ts) := by
  induction ts generalizing depth with
  | nil =>
    cases across
    exact .done
  | cons t ts ih =>
    obtain ⟨here, behind⟩ := depthOver_cons across
    refine .token (fun level same => ?_) (ih behind)
    have same : t = .symbol bound := same
    rw [level, same, stops] at here
    cases here

theorem depthOver_expression {depth' : Nat} (across : depthOver .statement depth ts = some depth') :
    depthOver .expression depth ts = some depth' := by
  induction ts generalizing depth with
  | nil => exact across
  | cons t ts ih =>
    obtain ⟨here, behind⟩ := depthOver_cons across
    rw [Ends.statement, Bool.or_eq_false_iff] at here
    rw [depthOver, here.1]
    exact ih behind

theorem nested_arguments {args : List String} (known : ∀ a ∈ args, IsArgument a)
    (read : awaitBehind [.rparen] (unplaced (argumentTokens args)) ≠ none) :
    Nested (unplaced (argumentTokens args)) := by
  have here {a : String} (argument : IsArgument a)
      (read : awaitBehind [.rparen] (unplaced (tokens (rawPieces a))) ≠ none) :
      Nested (unplaced (tokens (rawPieces a))) := by
    have passed : Passed .rparen 0 (unplaced (tokens (rawPieces a))) :=
      passed_of_depthOver (fun _ => rfl) argument.2
    exact @Passed.nests _ _ _ passed [] [.rparen] rfl
      (fun closing head => (Option.some.inj head).symm) read
  induction args with
  | nil => rfl
  | cons a others ih =>
    obtain ⟨first, known⟩ := List.forall_mem_cons.mp known
    by_cases none : others = []
    · subst none
      have alone : argumentTokens [a] = tokens (rawPieces a) :=
        congrArg tokens (List.append_nil (rawPieces a))
      rw [alone] at read ⊢
      exact here first read
    · rw [argumentTokens_cons none] at read ⊢
      have front := here first (awaitBehind_unplaced_append _ read)
      rw [unplaced_append] at read ⊢
      refine front.append ?_
      rw [awaitBehind_append, front.awaitBehind] at read
      exact ih known read

theorem not_across_semicolon {more : List Token}
    (across : depthOver .expression depth us = some 0) :
    depthOver .expression depth (us ++ .symbol .semicolon :: more) ≠ some 0 := by
  rw [depthOver_append across]
  nofun

/-- What holds no semicolon outside brackets stands in front of the first one there is. -/
theorem exists_in_front {us' more more' : List Token}
    (first : depthOver .expression depth us = some 0)
    (same : us ++ more = us' ++ .symbol .semicolon :: more')
    (second : depthOver .expression depth us' = some 0) :
    ∃ gap, us' = us ++ gap ∧ more = gap ++ .symbol .semicolon :: more' := by
  rcases List.append_eq_append_iff.mp same with ⟨gap, rfl, split⟩ | ⟨gap, rfl, split⟩
  · exact ⟨gap, rfl, split⟩
  · cases gap with
    | nil => exact ⟨[], by rw [List.append_nil, List.append_nil], split.symm⟩
    | cons t gap =>
      obtain ⟨rfl, _⟩ := List.cons.inj split
      exact absurd first (not_across_semicolon second)

theorem eq_of_semicolon {us' more more' : List Token}
    (first : depthOver .expression depth us = some 0)
    (second : depthOver .expression depth us' = some 0)
    (same : us ++ .symbol .semicolon :: more = us' ++ .symbol .semicolon :: more') :
    us = us' ∧ more = more' := by
  obtain ⟨gap, rfl, behind⟩ := exists_in_front first same second
  cases gap with
  | nil => exact ⟨(List.append_nil _).symm, (List.cons.inj behind).2⟩
  | cons t gap =>
    obtain ⟨rfl, _⟩ := List.cons.inj behind
    exact absurd second (not_across_semicolon first)

theorem nested_of_depthOver (within : depthOver .expression 0 us = some 0)
    (read : awaitBehind [] (unplaced us) ≠ none) : Nested (unplaced us) := by
  have passed : Passed .rbrace 0 (unplaced us) := passed_of_depthOver (fun _ => rfl) within
  exact @Passed.nests _ _ _ passed [] [] rfl nofun read

/-- The statement gives a field its value. -/
def StatementHead.isAssignment : StatementHead → Bool
  | .assignment _ => true
  | _ => false

/-- An assignment begins behind a closing brace, or here. -/
def assigns : (here : Bool) → List Token → Bool
  | _, [] => false
  | here, t :: ts =>
      here && (StatementHead.ofTokens (t :: ts)).isAssignment || assigns (t == .symbol .rbrace) ts

theorem assigns_behind {here : Bool} (none : assigns here (us ++ ts) = false)
    (brace : us.getLast? = some (.symbol .rbrace)) : assigns true ts = false := by
  induction us generalizing here with
  | nil => cases brace
  | cons t us ih =>
    rw [List.cons_append, assigns, Bool.or_eq_false_iff] at none
    cases us with
    | nil =>
      obtain rfl : t = .symbol .rbrace := Option.some.inj brace
      exact none.2
    | cons u us => exact ih none.2 (by rwa [List.getLast?_cons_cons] at brace)

theorem getLast?_of_depthOver (across : depthOver .statement 0 ts = some 0) :
    ts.getLast? ≠ some (.symbol .rbrace) := by
  intro last
  obtain ⟨front, rfl⟩ := List.getLast?_eq_some_iff.mp last
  obtain ⟨depth, further, closed⟩ := depthOver_concat across
  have level : depth - 1 = 0 := closed
  simp [Ends.statement, Token.nest, Symbol.isOpen, Symbol.isClose, level, Token.continuesBlock]
    at further

/-- What a statement is made of without its semicolon. If it has none, it ends with a brace; if it
has one and ends with a brace all the same, it is an assignment. -/
inductive Body (s : Statement) : List Token → Prop
  | terminated {body : List Token} (shape : tokens s.textPieces = body ++ [.symbol .semicolon])
      (given : body ≠ []) (within : depthOver .expression 0 body = some 0)
      (last : assigns true body = false → body.getLast? ≠ some (.symbol .rbrace)) : Body s body
  | closed {body : List Token} (shape : tokens s.textPieces = body)
      (within : depthOver .expression 0 body = some 0)
      (last : body.getLast? = some (.symbol .rbrace)) : Body s body

theorem body_call {s : Statement} {word : Keyword} {args : List String}
    (pieces : s.textPieces = Statement.callTextPieces word args)
    (known : ∀ a ∈ args, IsArgument a)
    (read : awaitBehind [] (unplaced (tokens s.textPieces)) ≠ none) : ∃ body, Body s body := by
  have shape := tokens_callTextPieces word args
  rw [pieces, shape] at read
  have inner : Nested (unplaced (argumentTokens args)) :=
    nested_arguments known (awaitBehind_unplaced_append [_, _] read)
  have within : depthOver .expression 1 (argumentTokens args) = some 1 := depthOver_inside inner
  refine ⟨.keyword word :: .symbol .lparen :: (argumentTokens args ++ [.symbol .rparen]),
    .terminated (by rw [pieces, shape]; simp) (List.cons_ne_nil _ _) ?_ fun _ last => ?_⟩
  · have behind : depthOver .expression 1 (argumentTokens args ++ [.symbol .rparen]) =
        depthOver .expression 1 [.symbol .rparen] := depthOver_append within
    exact behind
  · have paren : (.keyword word :: .symbol .lparen :: (argumentTokens args ++ [.symbol .rparen]) :
        List Token).getLast? = some (.symbol .rparen) := by
      rw [← List.cons_append, ← List.cons_append, List.getLast?_concat]
    cases paren.symm.trans last

theorem exists_body {s : Statement} (readable : s.Readable)
    (read : awaitBehind [] (unplaced (tokens s.textPieces)) ≠ none) : ∃ body, Body s body := by
  cases s with
  | superCall args span => exact body_call rfl readable.2 read
  | thisCall args span => exact body_call rfl readable.2 read
  | assign q field value span =>
    obtain ⟨_, known, other⟩ := readable
    refine ⟨qualifier q ++ .name field :: .symbol .equals :: tokens (rawPieces value),
      .terminated (by rw [tokens_assign]; simp)
        (List.append_ne_nil_of_right_ne_nil _ (List.cons_ne_nil _ _)) ?_ fun none => absurd none ?_⟩
    · cases q <;> exact known.2
    · have begins : StatementHead.ofTokens
          (qualifier q ++ .name field :: .symbol .equals :: tokens (rawPieces value)) =
            .assignment q := by
        cases q <;> exact if_neg other
      cases q <;> simp [assigns, qualifier, StatementHead.isAssignment] at begins ⊢ <;> simp [begins]
  | other text span =>
    rcases readable.form with form | form
    · refine ⟨tokens (rawPieces text), .terminated ?_ (tokens_ne_nil readable.raw.raw.tight form.1)
        (depthOver_expression form.2) fun _ => getLast?_of_depthOver form.2⟩
      rw [(textPieces_open span readable.raw form).2, tokens_append]
      rfl
    · have shape := (textPieces_closed span readable.raw form).2
      obtain ⟨front, split, across⟩ := form
      have tokens : tokens (rawPieces text) = tokens front ++ [.symbol .rbrace] := by
        rw [split, tokens_append]
        rfl
      refine ⟨_, .closed (by rw [shape, tokens]) ?_ List.getLast?_concat⟩
      rw [depthOver_append (depthOver_expression across)]
      rfl

/-- The tokens of a line in front of its semicolon: its brackets nest, no semicolon stands outside
them, and nothing is assigned to a field at its beginning or behind a closing brace. -/
structure PlainLine (line : List Token) : Prop where
  nested : Nested (unplaced line)
  within : depthOver .expression 0 line = some 0
  plain : assigns true line = false

instance (line : List Token) : Decidable (PlainLine line) :=
  decidable_of_iff (Nested (unplaced line) ∧ depthOver .expression 0 line = some 0 ∧
      assigns true line = false)
    ⟨fun known => ⟨known.1, known.2.1, known.2.2⟩, fun line => ⟨line.1, line.2, line.3⟩⟩

/-- A line as it is printed: no semicolon is written behind a closing brace. -/
def terminated (line : List Token) : List Token :=
  if line = [] ∨ line.getLast? = some (.symbol .rbrace) then line
  else line ++ [.symbol .semicolon]

theorem terminated_append (last : us.getLast? = some (.symbol .rbrace)) :
    terminated (us ++ ts) = us ++ terminated ts := by
  by_cases none : ts = []
  · simp [none, terminated, last]
  · have some : us ++ ts ≠ [] := List.append_ne_nil_of_right_ne_nil _ none
    rw [terminated, terminated, List.getLast?_append_of_ne_nil _ none]
    simp only [some, none, false_or]
    split
    · rfl
    · exact List.append_assoc _ _ _

theorem PlainLine.behind {body rest : List Token} (line : PlainLine (body ++ rest))
    (body_nested : Nested (unplaced body)) (within : depthOver .expression 0 body = some 0)
    (last : body.getLast? = some (.symbol .rbrace)) : PlainLine rest := by
  refine ⟨?_, ?_, assigns_behind line.plain last⟩
  · have nested := line.nested
    rwa [Nested, unplaced_append, awaitBehind_append, body_nested.awaitBehind] at nested
  · have whole := line.within
    rwa [depthOver_append within] at whole

/-- Of the statements of a body, the first ones are those of its first line. -/
theorem Lined.first {more : List Token} {ss : List Statement} (lined : Lined ts ss)
    (readable : ∀ s ∈ ss, s.Readable) (read : awaitBehind [] (unplaced ts) ≠ none)
    (isLine : PlainLine line) (split : ts = line ++ .symbol .semicolon :: more) :
    ∃ front back, ss = front ++ back ∧ Lined more back ∧
      (front.flatMap fun s => tokens s.textPieces) = terminated line := by
  induction lined generalizing line with
  | done => cases List.append_ne_nil_of_right_ne_nil _ (List.cons_ne_nil _ _) split.symm
  | @blank ts ss others ih =>
    have none : depthOver .expression 0 [] = some 0 := rfl
    obtain ⟨rfl, rfl⟩ := eq_of_semicolon none isLine.within split
    exact ⟨[], ss, rfl, others, rfl⟩
  | @line s ts ss others ih =>
    obtain ⟨here, readable⟩ := List.forall_mem_cons.mp readable
    obtain ⟨body, form⟩ := exists_body here (awaitBehind_unplaced_append _ read)
    cases form with
    | terminated shape given within last =>
      rw [shape, List.append_assoc] at split
      obtain ⟨rfl, rfl⟩ := eq_of_semicolon within isLine.within split
      have kept : terminated body = body ++ [.symbol .semicolon] :=
        if_neg (not_or.mpr ⟨given, last isLine.plain⟩)
      exact ⟨[s], ss, rfl, others, by rw [kept, ← shape]; exact List.append_nil _⟩
    | closed shape within last =>
      subst shape
      obtain ⟨gap, rfl, behind⟩ := exists_in_front within split isLine.within
      have nested := nested_of_depthOver within (awaitBehind_unplaced_append _ read)
      rw [unplaced_append, awaitBehind_append, nested.awaitBehind] at read
      obtain ⟨front, back, rfl, lined, same⟩ :=
        ih readable read (isLine.behind nested within last) behind
      refine ⟨s :: front, back, rfl, lined, ?_⟩
      rw [List.flatMap_cons, same, terminated_append last]
  | @last s ts whole =>
    have here := readable s List.mem_cons_self
    have shape : unplaced (tokens s.textPieces) = unplaced ts ++ unplaced [.symbol .semicolon] := by
      rw [whole, unplaced_append]
    obtain ⟨body, form⟩ := exists_body here (by
      rw [shape, awaitBehind_append]
      cases known : awaitBehind [] (unplaced ts) with
      | none => exact absurd known read
      | some awaited => nofun)
    cases form with
    | terminated shape given within last =>
      obtain rfl := List.append_cancel_right (whole.symm.trans shape)
      exact absurd (split ▸ within) (not_across_semicolon isLine.within)
    | closed shape within last =>
      rw [← shape, whole, List.getLast?_concat] at last
      cases last

theorem Lined.eq_nil {ss : List Statement} (lined : Lined ts ss) (readable : ∀ s ∈ ss, s.Readable)
    (none : ts = []) : ss = [] := by
  cases lined with
  | done => rfl
  | blank others => cases none
  | line others =>
    obtain ⟨empty, _⟩ := List.append_eq_nil_iff.mp none
    exact absurd empty (tokens_textPieces_ne_nil (readable _ List.mem_cons_self))
  | @last s _ whole =>
    subst none
    obtain ⟨body, form⟩ := exists_body (readable s List.mem_cons_self) (by rw [whole]; nofun)
    cases form with
    | terminated shape given => exact absurd (List.append_cancel_right (whole.symm.trans shape)).symm given
    | closed shape _ last =>
      rw [← shape, whole] at last
      cases last

theorem nested_lines {lines : List (List Token)} (each : ∀ line ∈ lines, PlainLine line) :
    Nested (unplaced (lines.flatMap (· ++ [.symbol .semicolon]))) := by
  induction lines with
  | nil => rfl
  | cons line lines ih =>
    obtain ⟨here, each⟩ := List.forall_mem_cons.mp each
    rw [List.flatMap_cons, unplaced_append, unplaced_append]
    have semicolon : Nested (unplaced [.symbol .semicolon]) := rfl
    exact (here.nested.append semicolon).append (ih each)

theorem Lined.printed {lines : List (List Token)} {ss : List Statement}
    (lined : Lined (lines.flatMap (· ++ [.symbol .semicolon])) ss)
    (readable : ∀ s ∈ ss, s.Readable) (each : ∀ line ∈ lines, PlainLine line) :
    (ss.flatMap fun s => tokens s.textPieces) = lines.flatMap terminated := by
  induction lines generalizing ss with
  | nil => rw [lined.eq_nil readable rfl]; rfl
  | cons line lines ih =>
    have read : awaitBehind [] (unplaced ((line :: lines).flatMap (· ++ [.symbol .semicolon]))) ≠
        none := by
      rw [nested_lines each]
      nofun
    obtain ⟨here, each⟩ := List.forall_mem_cons.mp each
    have split : (line :: lines).flatMap (· ++ [Token.symbol .semicolon]) =
        line ++ .symbol .semicolon :: lines.flatMap (· ++ [.symbol .semicolon]) := by
      simp
    obtain ⟨front, back, rfl, behind, same⟩ := lined.first readable read here split
    rw [List.flatMap_append, List.flatMap_cons, same,
      ih behind (fun s member => readable s (List.mem_append_right _ member)) each]

theorem length_terminated_le (line : List Token) :
    (terminated line).length ≤ (line ++ [Token.symbol .semicolon]).length := by
  rw [terminated]
  split <;> simp

/-- Lines of tokens are printed as they are just if none of them ends with a brace. -/
theorem flatMap_terminated_eq_iff {lines : List (List Token)} (given : ∀ line ∈ lines, line ≠ []) :
    lines.flatMap terminated = lines.flatMap (· ++ [.symbol .semicolon]) ↔
      ∀ line ∈ lines, line.getLast? ≠ some (.symbol .rbrace) := by
  have longer (lines : List (List Token)) : (lines.flatMap terminated).length ≤
      (lines.flatMap (· ++ [Token.symbol .semicolon])).length := by
    induction lines with
    | nil => exact Nat.le_refl _
    | cons line lines ih =>
      rw [List.flatMap_cons, List.flatMap_cons, List.length_append, List.length_append]
      exact Nat.add_le_add (length_terminated_le line) ih
  induction lines with
  | nil => simp
  | cons line lines ih =>
    obtain ⟨here, given⟩ := List.forall_mem_cons.mp given
    have behind := ih given
    rw [List.forall_mem_cons, List.flatMap_cons, List.flatMap_cons]
    constructor
    · intro same
      have lengths := congrArg List.length same
      rw [List.length_append, List.length_append] at lengths
      have first := length_terminated_le line
      have others := longer lines
      have whole : (terminated line).length = (line ++ [Token.symbol .semicolon]).length := by omega
      obtain ⟨front, more⟩ := List.append_inj same whole
      refine ⟨fun brace => ?_, behind.mp more⟩
      rw [terminated, if_pos (.inr brace)] at whole
      simp at whole
    · rintro ⟨other, same⟩
      rw [behind.mpr same, terminated, if_neg (not_or.mpr ⟨here, other⟩)]

end Lines

end Parser

section Terminators

variable {text className : String} {m : MethodDecl} {found : Member} {b : Block}

/-- What is printed of the body of a constructor or method that was read from a Java text without
comments: the tokens of its lines, without the semicolons that stand behind a closing brace. -/
theorem tokenSequence_lines (free : CommentFree text)
    (callable : found = .constructor m ∨ found = .method m)
    (read : parseMember text className .java = .ok found) (body : m.body = some b)
    {lines : List (List Token)}
    (source : b.span.tokensIn text = some (.symbol .lbrace ::
      (lines.flatMap (· ++ [.symbol .semicolon]) ++ [.symbol .rbrace])))
    (each : ∀ line ∈ lines, Parser.PlainLine line) :
    tokenSequence (b.text .java indentUnit) = some (.symbol .lbrace ::
      (lines.flatMap Parser.terminated ++ [.symbol .rbrace])) := by
  obtain ⟨located, c', tokens, run, _⟩ := parseMember_eq_ok.mp read
  have bodies := Parser.answers_member.answer (free.standing tokens) run
  have block := bodies m (callable.imp (fun same => by rw [same]; exact List.mem_cons_self)
    fun same => by rw [same]; exact List.mem_cons_self) b body
  obtain ⟨cs, lines', cut, inside, lined, readable, unclosed⟩ := block.lined
  have known : b.span.tokensIn text = tokenSequence (String.ofList cs) := by
    have cut : slice? text.toList b.span.start b.span.stop = some cs := cut
    rw [Span.tokensIn, cut, Option.bind_some]
  rw [source, inside, Option.some_inj, List.cons.injEq] at known
  obtain rfl := List.append_cancel_right known.2
  rw [Parser.tokenSequence_block readable unclosed, lined.printed readable each]

/-- The body is printed with the tokens of its source just if none of its lines ends with a brace. -/
theorem tokenSequence_body_iff (free : CommentFree text)
    (callable : found = .constructor m ∨ found = .method m)
    (read : parseMember text className .java = .ok found) (body : m.body = some b)
    {lines : List (List Token)}
    (source : b.span.tokensIn text = some (.symbol .lbrace ::
      (lines.flatMap (· ++ [.symbol .semicolon]) ++ [.symbol .rbrace])))
    (each : ∀ line ∈ lines, Parser.PlainLine line) (given : ∀ line ∈ lines, line ≠ []) :
    tokenSequence (b.text .java indentUnit) = b.span.tokensIn text ↔
      ∀ line ∈ lines, line.getLast? ≠ some (.symbol .rbrace) := by
  rw [tokenSequence_lines free callable read body source each, source,
    ← Parser.flatMap_terminated_eq_iff given, Option.some_inj, List.cons.injEq,
    List.append_cancel_right_eq]
  simp

def bracedValues : String :=
  "void m() { int[] a = {1, 2}; return new B() { }.c(); return new B() { }; }"

example : (match parseMember bracedValues "A" .java with
    | .ok (.method m) => m.body.bind fun b => tokenSequence (b.text .java indentUnit)
    | _ => none) = tokenSequence
      "{ int[] a = {1, 2} return new B() { }.c(); return new B() { } }" := by
  decide +kernel

end Terminators

end CreatorSynth
