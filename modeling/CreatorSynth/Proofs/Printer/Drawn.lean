import CreatorSynth.Proofs.Printer.Lines
import CreatorSynth.Proofs.Printer.TypeText

/-! What is read from a Java source without comments can be read from its own text again, and the
texts it keeps stand in the source one behind another. -/
namespace CreatorSynth
open Text

namespace Parser
open Piece

variable {ts : List Token}

section Annotations

theorem openParens_of_closeGroup {inner : Nat} {ahead rest : List Located} {last : Located}
    (found : closeGroup .lparen .rparen inner ahead = some (last, rest)) :
    ∃ taken, ahead = taken ++ last :: rest ∧ last.token = .symbol .rparen ∧
      openParens inner (taken.map (·.token)) = some 0 := by
  induction ahead generalizing inner with
  | nil => cases found
  | cons t ts ih =>
    simp only [closeGroup] at found
    split at found
    · rename_i opens
      obtain ⟨taken, rfl, closed, nested⟩ := ih found
      exact ⟨t :: taken, rfl, closed, by simp [openParens, opens, nested]⟩
    · rename_i other
      split at found
      · rename_i closes
        cases inner with
        | zero =>
          cases found
          exact ⟨[], rfl, closes, rfl⟩
        | succ inner =>
          obtain ⟨taken, rfl, closed, nested⟩ := ih found
          exact ⟨t :: taken, rfl, closed, by simp [openParens, closes, nested]⟩
      · rename_i other'
        obtain ⟨taken, rfl, closed, nested⟩ := ih found
        exact ⟨t :: taken, rfl, closed, by simp [openParens, other, other', nested]⟩

theorem draws_groupText : Draws ts (groupText .lparen .rparen) fun args raws _ =>
    IsArguments args ∧ raws = [rawPieces args] := by
  refine ⟨fun {src c before pieces args c'} standing _ run => ?_⟩
  have worded := (Gives.quiet.gives standing.worded run).1
  rw [groupText] at run
  obtain ⟨span, mid, grouped, cutOut⟩ := on_bind_eq_ok.mp run
  rw [on_group] at grouped
  split at grouped
  · rename_i head
    obtain ⟨front, more, paren, rfl, _, opened, first⟩ := standing.opened head
    have first : (c.rest.head?.map (·.start)).getD src.stop + 1 = byteLength paren := first
    split at grouped
    · cases grouped
    · rename_i closing others found
      cases grouped
      obtain ⟨taken, split, closed, nested⟩ := openParens_of_closeGroup found
      rw [opened.here.rest] at split
      obtain ⟨group, behind, rfl, rfl, place, stop, rest⟩ := exists_ahead_token split
      rw [closed] at opened stop
      rw [map_token_ahead] at nested
      rw [← byteLength_append] at place
      have last : closing.stop = closing.start + 1 := stop
      have order : byteLength paren ≤ byteLength (paren ++ group.flatMap text) := by
        rw [byteLength_append]
        exact Nat.le_add_right _ _
      have bounds : max closing.stop ((c.rest.head?.map (·.start)).getD src.stop) - 1 =
          byteLength (paren ++ group.flatMap text) := by
        omega
      simp only [first, bounds] at cutOut
      have whole : src.text = paren ++ group.flatMap text ++
          (token (.symbol .rparen) :: behind : List Piece).flatMap text := by
        rw [opened.here.text, List.flatMap_append, List.append_assoc]
      obtain ⟨raw, same, holds⟩ := cut_keeps whole
        (fun p member => opened.bare p (List.mem_append_left _ member))
        (by simpa using (allStand_append.mp opened.stand).1) rfl cutOut
      have shape : group ++ token (.symbol .rparen) :: behind =
          (group ++ [token (.symbol .rparen)]) ++ behind := by simp
      rw [shape] at opened
      refine ⟨front ++ [token (.symbol .lparen)] ++ (group ++ [token (.symbol .rparen)]), behind, _, _,
        by rw [closed]; simp, opened.behind ?_ worded, (holds.followed _).skips _,
        ⟨raw, same ▸ nested⟩, rfl⟩
      rw [cut_same cutOut, List.flatMap_append, ← List.append_assoc, byteLength_append _ (List.flatMap _ _),
        ← place, ← rest, last]
      rfl
  · cases grouped

theorem draws_argumentText? : Draws ts argumentText? fun found raws _ =>
    (∀ args ∈ found, IsArguments args) ∧ raws = (found.map rawPieces).toList := by
  refine .sees (.ite (fun _ => ?_) fun _ => .pure ⟨nofun, rfl⟩)
  refine draws_groupText.bind fun args raws rest known => .pure ?_
  obtain ⟨known, rfl⟩ := known
  exact ⟨fun args' same => Option.some.inj same ▸ known, rfl⟩

theorem gives_qualifiedName : Gives qualifiedName IsPath :=
  gives_identifier.bind fun _ word => (Gives.many gives_dotName).bind fun _ names =>
    .pure (isPath_joinSegments word names)

theorem draws_annotation : Draws ts annotation fun a raws _ => a.Readable ∧ raws = a.raws := by
  refine .nextStart fun start => .expect fun rest _ => ?_
  refine .skip gives_qualifiedName fun name rest path => ?_
  refine draws_argumentText?.bind fun args raws rest known => ?_
  exact .spanFrom fun span => .pure ⟨⟨path, known.1⟩, by simp [known.2, Annotation.raws]⟩

end Annotations

section Modifiers

/-- A modifier comes next. -/
def beginsModifier : List Token → Bool
  | .symbol .atSign :: .keyword .interfaceWord :: _ => false
  | .symbol .atSign :: _ => true
  | .name word :: _ => isModifierKeyword word
  | _ => false

/-- A modifier that can be read again, and what it keeps, unless none comes next. -/
def IsModifier (found : Option (String ⊕ Annotation)) (raws : List (List Piece))
    (rest : List Token) : Prop :=
  (∀ item ∈ found, item.elim (isModifierKeyword · = true) Annotation.Readable) ∧
    raws = (found.map (Sum.elim (fun _ => []) Annotation.raws)).getD [] ∧
    (found = none → beginsModifier rest = false)

theorem draws_modifier : Draws ts modifier IsModifier := by
  refine .upcoming ?_
  have annotated : Draws ts (do return some (.inr (← annotation))) IsModifier := by
    refine draws_annotation.bind fun a raws rest known => .pure ?_
    obtain ⟨known, rfl⟩ := known
    exact ⟨fun item same => Option.some.inj same ▸ known, by simp, by simp⟩
  have other (plain : beginsModifier ts = false) : Draws ts (Pure.pure none) IsModifier :=
    .pure ⟨fun item none => (by cases none), rfl, fun _ => plain⟩
  rcases ts with _ | ⟨t, ts⟩
  · exact other rfl
  cases t with
  | symbol s =>
    cases s with
    | atSign =>
      rcases ts with _ | ⟨t, ts⟩
      · exact annotated
      cases t with
      | keyword word =>
        cases word with
        | interfaceWord => exact other rfl
        | _ => exact annotated
      | _ => exact annotated
    | _ => exact other rfl
  | name word =>
    rw [List.take_succ_cons, modifierFrom]
    refine .ite (fun known => .advance (.pure ?_)) fun plain => other (by simpa [beginsModifier] using plain)
    exact ⟨fun item same => Option.some.inj same ▸ known, by simp, by simp⟩
  | _ => exact other rfl

theorem draws_modifiers : Draws ts modifiers fun m raws rest =>
    m.Readable ∧ raws = m.raws ∧ beginsModifier rest = false := by
  refine (Draws.many _ _ fun ts => draws_modifier).bind fun found raws rest known => .pure ?_
  obtain ⟨each, rfl, ends⟩ := known
  refine ⟨⟨fun word member => ?_, fun a member => ?_⟩, ?_, ends⟩
  · obtain ⟨item, among, same⟩ := List.mem_filterMap.mp member
    cases item <;> cases same
    exact each _ among
  · obtain ⟨item, among, same⟩ := List.mem_filterMap.mp member
    cases item <;> cases same
    exact each _ among
  · clear each ends
    rw [List.append_nil]
    induction found with
    | nil => rfl
    | cons item found ih =>
      cases item with
      | inl word => exact ih
      | inr a => exact congrArg (a.raws ++ ·) ih

theorem isModifierKeyword_of_begins {name : String}
    (plain : beginsModifier (wordToken name :: ts) = false) : isModifierKeyword name = false := by
  obtain ⟨rfl, _⟩ | ⟨_, token⟩ := wordToken_cases name
  · decide
  · rwa [token] at plain

end Modifiers

section Types

theorem draws_typeRef : Draws ts typeRef fun t raws _ => raws = [] ∧ t.Worded :=
  .given gives_typeRef

theorem draws_typeParam : Draws ts typeParam fun p raws _ => p.Readable ∧ raws = [] := by
  have each : Gives bounds fun types => ∀ t ∈ types, t.Worded :=
    Gives.quiet.bind fun _ _ => .ite (fun _ => .separated gives_typeRef) fun _ => .pure nofun
  have draws : Draws ts typeParam fun p _ _ => p.Readable := by
    refine draws_modifiers.bind fun _ raws rest known => ?_
    obtain ⟨_, _, plain⟩ := known
    refine .identifier fun name rest shape word => .skip each fun types rest worded => .pure ?_
    exact ⟨word, isModifierKeyword_of_begins (shape ▸ plain), worded⟩
  exact draws.weaken fun p raws _ known => ⟨[], List.nil_sublist raws, known, rfl⟩

theorem draws_typeParams : Draws ts typeParams fun params raws rest =>
    raws = [] ∧ (∀ p ∈ params, p.Readable) ∧ (params = [] → rest = ts) := by
  refine .accept (fun rest _ => ?_) fun _ => .pure ⟨rfl, nofun, fun _ => rfl⟩
  refine (Draws.separated (fun _ => []) fun ts => draws_typeParam).bind fun params raws rest known => ?_
  obtain ⟨some, each, rfl⟩ := known
  exact .expect fun rest _ => .pure ⟨by simp, each, fun none => absurd none some⟩

variable {type : Parser TypeRef}

theorem draws_dotName : Draws ts dotName fun found raws rest =>
    raws = [] ∧ (found = none → rest = ts) := by
  refine .upcoming ?_
  split
  · exact .advance (.advance (.pure ⟨rfl, by simp⟩))
  · exact .pure ⟨rfl, fun _ => rfl⟩

theorem draws_dimensions : Draws ts dimensions fun dims raws rest =>
    raws = [] ∧ (dims = 0 → rest = ts) := by
  have each (ts : List Token) : Draws ts dimension fun found raws rest =>
      raws = [] ∧ (found = none → rest = ts) := by
    refine .upcoming (.ite (fun _ => ?_) fun _ => .pure ⟨rfl, fun _ => rfl⟩)
    exact .advance (.advance (.pure ⟨rfl, nofun⟩))
  refine (Draws.many_same each).bind fun found raws rest known => .pure ?_
  obtain ⟨rfl, same⟩ := known
  exact ⟨rfl, fun none => same (List.length_eq_zero_iff.mp none)⟩

theorem draws_typeArgs? [Onward type] (inner : Gives type TypeRef.Worded) : Draws ts (typeArgs? type) fun found raws rest =>
    raws = [] ∧ (found = none → rest = ts) ∧
      (found = some [] → ts = .symbol .langle :: .symbol .rangle :: rest) := by
  refine .accept (fun behind opens => ?_) fun _ => .pure ⟨rfl, fun _ => rfl, nofun⟩
  refine .accept (fun rest closes => .pure ⟨rfl, nofun, fun _ => ?_⟩) fun _ => ?_
  · rw [opens, closes]
  · have each (ts : List Token) : Draws ts (typeArg type) fun _ raws _ => True ∧ raws = [] :=
      (Draws.given (gives_typeArg inner)).imp fun _ _ _ known => ⟨trivial, known.1⟩
    refine (Draws.separated (fun _ => []) each).bind fun args raws rest known => ?_
    obtain ⟨some, _, rfl⟩ := known
    exact .expect fun rest _ => .pure ⟨by simp, nofun, fun same => absurd (Option.some.inj same) some⟩

theorem draws_typeAnnotations (plain : beginsModifier ts = false) :
    Draws ts (many do
      if ← sees .atSign then return some (← annotation)
      return none) fun _ raws rest => raws = [] ∧ rest = ts := by
  have each (ts : List Token) : Draws ts (do
      if ← sees .atSign then return some (← annotation)
      return none) fun found raws rest =>
        (found = none → raws = [] ∧ rest = ts) ∧ (found ≠ none → beginsModifier ts = true) := by
    refine .sees (.ite (fun opens => ?_) fun _ => .pure ⟨fun _ => ⟨rfl, rfl⟩, fun some => absurd rfl some⟩)
    have begins : Draws ts annotation fun _ _ _ => beginsModifier ts = true := by
      refine .nextStart fun start => .expect fun rest shape => ?_
      rw [qualifiedName, bind_assoc]
      refine .identifier fun name behind word _ => ?_
      have known : beginsModifier ts = true := by
        obtain ⟨_, token⟩ | ⟨_, token⟩ := wordToken_cases name <;> rw [shape, word, token] <;> rfl
      exact (Draws.given .quiet).imp fun _ _ _ _ => known
    exact begins.bind fun a raws rest known => .pure ⟨nofun, fun _ => known⟩
  have loop := Draws.loop (R := fun ts _ raws rest => beginsModifier ts = false → raws = [] ∧ rest = ts)
    each (fun known _ => known.1 rfl)
    (fun known _ plain => by rw [known.2 nofun] at plain; cases plain) ts
  exact loop.imp fun _ _ _ known => known plain

theorem head?_segments_joinSegments {first : String} (word : IsWord first) (others : List String) :
    (segments (joinSegments (first :: others))).head? = some first ∧
      (joinSegments (first :: others) = first → others = []) := by
  cases others with
  | nil => exact ⟨congrArg List.head? (segments_of_dotFree word.dotFree), fun _ => rfl⟩
  | cons s others =>
    have shape : joinSegments (first :: s :: others) = first ++ "." ++ joinSegments (s :: others) :=
      String.intercalate_cons_of_ne_nil (List.cons_ne_nil _ _)
    have split : segments (first ++ "." ++ joinSegments (s :: others)) = _ :=
      segments_append word.dotFree
    rw [← shape] at split
    refine ⟨by rw [split]; rfl, fun same => ?_⟩
    rw [same, segments_of_dotFree word.dotFree] at split
    exact absurd (List.cons.inj split).2.symm (segments_ne_nil _)

/-- A type begins with its first word, and nothing but empty angles stand behind it if that is all
of the type. -/
def BeginsType (ts : List Token) (t : TypeRef) (rest : List Token) : Prop :=
  ∃ first behind, ts = wordToken first :: behind ∧ (segments t.name).head? = some first ∧
    (t = .simple first → rest = behind ∨ behind = .symbol .langle :: .symbol .rangle :: rest)

theorem draws_typeRef_begins (plain : beginsModifier ts = false) :
    Draws ts typeRef fun t raws rest => raws = [] ∧ BeginsType ts t rest ∧ t.Worded := by
  have within (depth : Nat) : Draws ts (typeRefWithin depth) fun t raws rest =>
      raws = [] ∧ BeginsType ts t rest := by
    cases depth with
    | zero => exact .throw _
    | succ depth =>
      have inner := gives_typeRefWithin depth
      have segment (ts : List Token) : Draws ts (typeSegment (typeRefWithin depth))
          fun found raws rest => raws = [] ∧ (found = none → rest = ts) := by
        refine draws_dotName.step fun found rest same => ?_
        cases found with
        | none => exact .pure ⟨rfl, fun _ => same rfl⟩
        | some name => exact .skip (gives_typeArgs? inner) fun _ _ _ => .pure ⟨rfl, nofun⟩
      refine (draws_typeAnnotations plain).step fun _ rest same => ?_
      subst same
      refine .identifier fun first behind shape word => ?_
      refine (draws_typeArgs? inner).step fun args afterArgs closed => ?_
      refine (Draws.many_same segment).step fun others afterNames stays => ?_
      refine draws_dimensions.step fun dims rest stays' => .pure ⟨rfl, first, behind, shape, ?_⟩
      obtain ⟨head, single⟩ := head?_segments_joinSegments word (others.map (·.1))
      refine ⟨head, fun simple => ?_⟩
      simp only [TypeRef.simple, TypeRef.mk.injEq] at simple
      obtain ⟨name, none, dimless⟩ := simple
      have alone : others = [] := List.map_eq_nil_iff.mp (single name)
      subst alone
      rw [stays' dimless, stays rfl]
      cases args with
      | none => exact .inl (closed.1 rfl)
      | some args => exact .inr (closed.2 (congrArg some none))
  have whole : Draws ts typeRef fun t raws rest => raws = [] ∧ BeginsType ts t rest :=
    .get fun _ => within _
  exact (whole.with_given gives_typeRef).imp fun _ _ _ known => ⟨known.1.1, known.1.2, known.2⟩

end Types

section Params

theorem BeginsType.leadsOn {t : TypeRef} {rest : List Token} (begins : BeginsType ts t rest)
    (plain : beginsModifier ts = false) : LeadsOn t.name := by
  obtain ⟨first, behind, rfl, head, _⟩ := begins
  intro s same
  cases head.symm.trans same
  exact isModifierKeyword_of_begins plain

/-- What a parameter keeps; one that stands for the receiver is dropped with all it would keep. -/
theorem draws_param? : Draws ts param? fun found raws _ =>
    (∀ p ∈ found, p.Readable) ∧ raws = (found.map Param.raws).getD [] := by
  have draws : Draws ts param? fun found raws _ =>
      (∀ p ∈ found, p.Readable) ∧ ∀ p ∈ found, raws = p.raws := by
    refine .nextStart fun start => draws_modifiers.bind fun m raws rest known => ?_
    obtain ⟨readable, rfl, plain⟩ := known
    refine (draws_typeRef_begins plain).step fun type rest known => ?_
    obtain ⟨begins, worded⟩ := known
    refine .skip (A := fun _ => True) .quiet fun varargs rest _ => ?_
    refine .skip (A := fun _ => True) .quiet fun receiver rest _ => ?_
    refine .ite (fun _ => .pure ⟨nofun, nofun⟩) fun _ => .identifier fun name rest _ word => ?_
    refine .skip (A := fun _ => True) .quiet fun dims rest _ => .spanFrom fun span => .pure ?_
    refine ⟨fun p same => ?_, fun p same => ?_⟩ <;> cases same
    · refine ⟨readable, ?_, begins.leadsOn plain, word⟩
      rw [TypeRef.Worded, TypeRef.names_array]
      exact worded
    · exact List.append_nil _
  refine draws.weaken fun found raws _ known => ?_
  cases found with
  | none => exact ⟨[], List.nil_sublist raws, known.1, rfl⟩
  | some p => exact ⟨raws, .refl raws, known.1, known.2 p rfl⟩

theorem flatMap_filterMap_id {α : Type} (kept : α → List (List Piece)) (found : List (Option α)) :
    (found.flatMap fun a => (a.map kept).getD []) = (found.filterMap id).flatMap kept := by
  induction found with
  | nil => rfl
  | cons a found ih =>
    rw [List.flatMap_cons, ih]
    cases a <;> rfl

theorem draws_params : Draws ts params fun params raws _ =>
    (∀ p ∈ params, p.Readable) ∧ raws = params.flatMap Param.raws := by
  refine .expect fun rest _ => .accept (fun rest _ => .pure ⟨nofun, rfl⟩) fun _ => ?_
  refine (Draws.separated _ fun ts => draws_param?).bind fun found raws rest known => ?_
  obtain ⟨_, each, rfl⟩ := known
  refine .expect fun rest _ => .pure ⟨fun p member => ?_, ?_⟩
  · obtain ⟨given, among, same⟩ := List.mem_filterMap.mp member
    exact each given among p same
  · rw [List.append_nil, flatMap_filterMap_id]

theorem gives_throwsClause : Gives throwsClause fun types => ∀ t ∈ types, t.Worded :=
  Gives.quiet.bind fun _ _ => .ite (fun _ => .separated gives_typeRef) fun _ => .pure nofun

end Params

section Statements

/-- The tokens of a statement in front of others: those that are printed, but for the semicolon if
the block ends there. -/
inductive StandsAs (s : Statement) : List Token → List Token → Prop
  | printed {rest : List Token} : StandsAs s (tokens s.textPieces ++ rest) rest
  | blockEnd {front rest : List Token} (ends : rest.head? = some (.symbol .rbrace))
      (whole : tokens s.textPieces = front ++ [.symbol .semicolon]) : StandsAs s (front ++ rest) rest

theorem tokens_callTextPieces (word : Keyword) (args : List String) :
    tokens (Statement.callTextPieces word args) = .keyword word :: .symbol .lparen ::
      (argumentTokens args ++ [.symbol .rparen, .symbol .semicolon]) := by
  have same : tokens (separatedBy commaPieces (args.map rawPieces)) = argumentTokens args := by
    cases args with
    | nil => rfl
    | cons a others =>
      simp only [argumentTokens, separatedBy, List.map_cons, tokens_append]
      refine congrArg _ ?_
      induction others with
      | nil => rfl
      | cons b others ih =>
        simp only [List.map_cons, List.flatMap_cons, tokens_append, ih]
        rfl
  rw [Statement.callTextPieces, tokens_keyword, tokens_symbol, tokens_append, same]
  rfl

theorem draws_callStatement : Draws ts callStatement fun args raws rest =>
    args ≠ [""] ∧ (∀ a ∈ args, IsArgument a) ∧ raws = args.map rawPieces ∧
      ts.tail = .symbol .lparen ::
        (argumentTokens args ++ .symbol .rparen :: .symbol .semicolon :: rest) := by
  refine .advance (draws_callArgs.bind fun args raws rest known => ?_)
  obtain ⟨some, each, rfl, shape⟩ := known
  refine .endDeclaration fun rest ends => .pure ⟨some, each, List.append_nil _, ?_⟩
  rw [shape, ends]

/-- What an assignment begins with. -/
def BeginsAssignment (ts : List Token) : Prop :=
  ∃ field more, ts = .name field :: .symbol .equals :: more ∧ more.head? ≠ some (.symbol .equals)

/-- The tokens in front of the field that is assigned to. -/
def qualifier (qualified : Bool) : List Token :=
  if qualified then [.keyword .thisWord, .symbol .dot] else []

theorem beginsAssignment_of_ofTokens {q : Bool} (kind : StatementHead.ofTokens ts = .assignment q) :
    ∃ us, ts = qualifier q ++ us ∧ BeginsAssignment us := by
  unfold StatementHead.ofTokens at kind
  split at kind
  · cases kind
  · cases kind
  · rename_i field more
    split at kind <;> cases kind
    exact ⟨_, rfl, field, more, rfl, ‹_›⟩
  · rename_i field more
    split at kind <;> cases kind
    exact ⟨_, rfl, field, more, rfl, ‹_›⟩
  · cases kind

theorem tokens_assign (q : Bool) (field value : String) (span : Span) :
    tokens (Statement.assign q field value span).textPieces =
      qualifier q ++ .name field :: .symbol .equals ::
        (tokens (rawPieces value) ++ [.symbol .semicolon]) := by
  have shape : tokens (Statement.assignPieces field value ++ [token (.symbol .semicolon)]) =
      .name field :: .symbol .equals :: (tokens (rawPieces value) ++ [.symbol .semicolon]) := by
    simp only [Statement.assignPieces, List.cons_append, tokens_name, tokens_gap, tokens_symbol,
      tokens_append]
    rfl
  rw [Statement.textPieces, tokens_append, shape]
  cases q <;> rfl

theorem draws_assignment {q : Bool} {start : Nat} (begins : BeginsAssignment ts) :
    Draws ts (assignment q start) fun s raws rest =>
      s.Readable ∧ raws = s.raws ∧ tokens s.textPieces ++ rest = qualifier q ++ ts := by
  obtain ⟨field, more, rfl, other⟩ := begins
  refine .identifier fun name rest shape word => .expect fun rest' assigns => ?_
  obtain ⟨token, rfl⟩ := List.cons.inj shape
  cases assigns
  refine draws_expression.bind fun value raws rest known => ?_
  obtain ⟨known, rfl, rfl, _⟩ := known
  refine .endDeclaration fun rest ends => .spanFrom fun span => .pure ?_
  have isName : IsName name := by
    refine word.resolve_right ?_
    rintro rfl
    cases token
  refine ⟨⟨isName, known, fun head => other ?_⟩, rfl, ?_⟩
  · rw [List.head?_append, head]
    rfl
  · rw [tokens_assign, token, wordToken_of_isName isName, ends]
    simp

theorem head_of_ofTokens {head : StatementHead} {word : Keyword}
    (calls : head = .superCall ∧ word = .superWord ∨ head = .thisCall ∧ word = .thisWord)
    (kind : StatementHead.ofTokens ts = head) : ts = .keyword word :: ts.tail := by
  unfold StatementHead.ofTokens at kind
  split at kind <;> try split at kind
  all_goals rcases calls with ⟨rfl, rfl⟩ | ⟨rfl, rfl⟩ <;> cases kind
  all_goals rfl

theorem standsAs_call {s : Statement} {word : Keyword} {args : List String} {rest : List Token}
    (pieces : s.textPieces = Statement.callTextPieces word args) (first : ts = .keyword word :: ts.tail)
    (shape : ts.tail = .symbol .lparen ::
      (argumentTokens args ++ .symbol .rparen :: .symbol .semicolon :: rest)) :
    StandsAs s ts rest := by
  have whole : ts = tokens s.textPieces ++ rest := by
    rw [first, shape, pieces, tokens_callTextPieces]
    simp
  rw [whole]
  exact .printed

theorem draws_statementFrom {head : StatementHead} {start : Nat}
    (begins : ∀ s ∈ [Symbol.semicolon, .rbrace], ts.head? ≠ some (.symbol s))
    (kind : StatementHead.ofTokens (ts.take 5) = head) :
    Draws ts (statementFrom start head) fun s raws rest =>
      s.Readable ∧ raws = s.raws ∧ StandsAs s ts rest := by
  cases head with
  | superCall =>
    rw [ofTokens_take] at kind
    refine draws_callStatement.bind fun args raws rest known => .spanFrom fun span => .pure ?_
    obtain ⟨some, known, rfl, shape⟩ := known
    exact ⟨⟨some, known⟩, List.append_nil _,
      standsAs_call rfl (head_of_ofTokens (.inl ⟨rfl, rfl⟩) kind) shape⟩
  | thisCall =>
    rw [ofTokens_take] at kind
    refine draws_callStatement.bind fun args raws rest known => .spanFrom fun span => .pure ?_
    obtain ⟨some, known, rfl, shape⟩ := known
    exact ⟨⟨some, known⟩, List.append_nil _,
      standsAs_call rfl (head_of_ofTokens (.inr ⟨rfl, rfl⟩) kind) shape⟩
  | assignment q =>
    rw [ofTokens_take] at kind
    obtain ⟨us, rfl, assigns⟩ := beginsAssignment_of_ofTokens kind
    have read : Draws us (assignment q start) fun s raws rest =>
        s.Readable ∧ raws = s.raws ∧ StandsAs s (qualifier q ++ us) rest := by
      refine (draws_assignment assigns).imp fun s raws rest known => ⟨known.1, known.2.1, ?_⟩
      rw [← known.2.2]
      exact .printed
    cases q with
    | false => exact read
    | true => exact .advance (.advance read)
  | other =>
    refine (draws_rawStatement begins kind).bind fun text raws rest known => .spanFrom fun span => .pure ?_
    obtain ⟨known, rfl, ended⟩ := known
    refine ⟨known, rfl, ?_⟩
    cases ended with
    | semicolon form =>
      have shape := congrArg tokens (textPieces_open span known.raw form).2
      rw [tokens_append] at shape
      have stands := @StandsAs.printed (.other text span) rest
      rwa [shape, List.append_assoc] at stands
    | blockEnd form ends =>
      exact .blockEnd ends
        ((congrArg tokens (textPieces_open span known.raw form).2).trans (tokens_append _ _))
    | closed form =>
      have stands := @StandsAs.printed (.other text span) rest
      rwa [(textPieces_closed span known.raw form).2] at stands

/-- What a step of a block takes: a semicolon that stands for no statement, a statement, or nothing
in front of the brace that ends the block. -/
inductive StepsOver (ts : List Token) : Option (Option Statement) → List Token → Prop
  | ends (last : ts.head? = some (.symbol .rbrace)) : StepsOver ts none ts
  | blank {rest : List Token} (shape : ts = .symbol .semicolon :: rest) : StepsOver ts (some none) rest
  | statement {s : Statement} {rest : List Token} (other : ts.head? ≠ some (.symbol .rbrace))
      (stands : StandsAs s ts rest) : StepsOver ts (some (some s)) rest

theorem draws_statement (other : ts.head? ≠ some (.symbol .rbrace)) :
    Draws ts statement fun found raws rest =>
      (∀ s ∈ found, s.Readable) ∧ raws = (found.map Statement.raws).getD [] ∧
        StepsOver ts (some found) rest := by
  refine .nextStart fun start =>
    .accept (fun rest shape => .pure ⟨nofun, rfl, .blank shape⟩) fun semicolon => ?_
  refine .upcoming ((draws_statementFrom (fun s listed => ?_) rfl).bind fun s raws rest known => .pure ?_)
  · simp only [List.mem_cons, List.not_mem_nil, or_false] at listed
    rcases listed with rfl | rfl
    · exact semicolon
    · exact other
  · obtain ⟨known, rfl, stands⟩ := known
    exact ⟨fun s' same => Option.some.inj same ▸ known, List.append_nil _, .statement other stands⟩

theorem draws_blockStep : Draws ts blockStep fun found raws rest =>
    (∀ a ∈ found, ∀ s ∈ a, s.Readable) ∧
      raws = (found.map fun a : Option Statement => (a.map Statement.raws).getD []).getD [] ∧
      StepsOver ts found rest := by
  refine .sees (.ite (fun last => .pure ⟨nofun, rfl, .ends (by simpa using last)⟩) fun other => ?_)
  refine .expectMore ((draws_statement (by simpa using other)).bind fun a raws rest known => .pure ?_)
  obtain ⟨known, rfl, takes⟩ := known
  exact ⟨fun a' same => Option.some.inj same ▸ known, List.append_nil _, takes⟩

/-- The tokens between the braces of a block of these statements. Semicolons that stand for no
statement are not printed, and the last statement may be printed with one more. -/
inductive Lined : List Token → List Statement → Prop
  | done : Lined [] []
  | blank {ts : List Token} {ss : List Statement} (others : Lined ts ss) :
      Lined (.symbol .semicolon :: ts) ss
  | line {s : Statement} {ts : List Token} {ss : List Statement} (others : Lined ts ss) :
      Lined (tokens s.textPieces ++ ts) (s :: ss)
  | last {s : Statement} {ts : List Token}
      (whole : tokens s.textPieces = ts ++ [.symbol .semicolon]) : Lined ts [s]

/-- Statements up to the brace that ends a block. -/
structure ReadsLines (ts : List Token) (found : List (Option Statement)) (raws : List (List Piece))
    (rest : List Token) : Prop where
  readable : ∀ s ∈ found.filterMap id, s.Readable
  raws : raws = (found.filterMap id).flatMap Statement.raws
  lined : ∃ lines, ts = lines ++ rest ∧ Lined lines (found.filterMap id)
  stays : ts.head? = some (.symbol .rbrace) → found = [] ∧ rest = ts

theorem draws_lines : Draws ts (many blockStep) (ReadsLines ts) := by
  refine Draws.loop (fun ts => draws_blockStep) ?_ ?_ ts
  · rintro ts raws rest ⟨_, rfl, ends⟩
    cases ends
    exact ⟨nofun, rfl, ⟨[], rfl, .done⟩, fun _ => ⟨rfl, rfl⟩⟩
  · rintro ts a raws mid as raws' rest ⟨known, rfl, takes⟩ behind
    cases takes with
    | blank shape =>
      obtain ⟨lines, rfl, lined⟩ := behind.lined
      refine ⟨behind.readable, behind.raws, ⟨_, shape, .blank lined⟩, fun head => ?_⟩
      rw [shape] at head
      cases head
    | @statement s _ other stands =>
      refine ⟨List.forall_mem_cons.mpr ⟨known _ rfl s rfl, behind.readable⟩,
        congrArg (s.raws ++ ·) behind.raws, ?_, fun head => absurd head other⟩
      · obtain ⟨lines, whole, lined⟩ := behind.lined
        cases stands with
        | printed => exact ⟨_, by rw [whole, List.append_assoc], .line lined⟩
        | @blockEnd front _ ends shape =>
          obtain ⟨rfl, rfl⟩ := behind.stays ends
          exact ⟨front, rfl, .last shape⟩

theorem draws_block : Draws ts block fun b raws rest =>
    (∀ s ∈ b.statements, s.Readable) ∧ raws = b.statements.flatMap Statement.raws ∧
      ∃ lines, ts = .symbol .lbrace :: (lines ++ .symbol .rbrace :: rest) ∧
        Lined lines b.statements := by
  refine .nextStart fun start => .expect fun rest opens => ?_
  refine draws_lines.bind fun found raws rest known => ?_
  refine .expect fun rest closes => .spanFrom fun span => .pure ?_
  obtain ⟨lines, whole, lined⟩ := known.lined
  exact ⟨known.readable, by rw [List.append_nil, known.raws], lines, by rw [opens, whole, closes], lined⟩

theorem draws_body? : Draws ts body? fun found raws _ =>
    (∀ s ∈ (found.map (·.statements)).getD [], s.Readable) ∧
      raws = ((found.map (·.statements)).getD []).flatMap Statement.raws := by
  refine .sees (.ite (fun _ => ?_) fun _ => ?_)
  · refine draws_block.bind fun b raws rest known => .pure ?_
    obtain ⟨known, rfl, _⟩ := known
    exact ⟨known, List.append_nil _⟩
  · refine .skip (A := fun _ => True) .quiet fun _ rest _ => ?_
    refine .skip (A := fun _ => True) .quiet fun _ rest _ => .pure ⟨nofun, rfl⟩

end Statements

section Members

variable {className name : String} {modifiers : Modifiers} {typeParams : List TypeParam}
  {start : Nat}

/-- A method or constructor behind its name, of parts that can be read again. -/
structure ReadsOn (modifiers : Modifiers) (typeParams : List TypeParam)
    (returnType : Option TypeRef) (name : String) (m : MethodDecl) : Prop where
  modifiers : m.modifiers = modifiers
  typeParams : m.typeParams = typeParams
  returnType : ∃ dims, m.returnType = returnType.map (·.array dims)
  name : m.name = name
  doc : m.doc = none
  params : ∀ p ∈ m.params, p.Readable
  throws : ∀ t ∈ m.throws, t.Worded
  statements : ∀ s ∈ m.statements, s.Readable

theorem leadsDeclaration_array {t : TypeRef} (leads : LeadsDeclaration name (some t)) (dims : Nat) :
    LeadsDeclaration name (some (t.array dims)) := by
  refine ⟨leads.1, fun record => leads.2 ?_⟩
  obtain ⟨first, args, inner⟩ := t
  simp only [TypeRef.array, TypeRef.simple, TypeRef.mk.injEq] at record ⊢
  exact ⟨record.1, record.2.1, by omega⟩

theorem ReadsOn.readable {returnType : Option TypeRef} {m : MethodDecl}
    (reads : ReadsOn modifiers typeParams returnType name m) (readable : modifiers.Readable)
    (params : ∀ p ∈ typeParams, p.Readable) (word : IsWord name)
    (returned : ∀ t ∈ returnType, t.Worded)
    (constructs : returnType = none → name = className ∧ IsName className)
    (leads : typeParams = [] → LeadsDeclaration name returnType) : m.Readable className := by
  obtain ⟨dims, same⟩ := reads.returnType
  have types : ∀ t ∈ m.returnType, t.Worded := by
    intro t given
    rw [same] at given
    obtain ⟨t', among, rfl⟩ := Option.map_eq_some_iff.mp given
    rw [TypeRef.Worded, TypeRef.names_array]
    exact returned t' among
  refine ⟨reads.modifiers ▸ readable, reads.typeParams ▸ params, types, reads.name ▸ word,
    fun none => ?_, fun bare => ?_, reads.params, reads.throws, reads.doc⟩
  · rw [same, Option.map_eq_none_iff] at none
    exact reads.name ▸ constructs none
  · have leads := leads (reads.typeParams ▸ bare)
    rw [reads.name, same]
    cases returnType with
    | none => exact leads
    | some t => exact leadsDeclaration_array leads dims

theorem draws_methodRest {returnType : Option TypeRef} :
    Draws ts (methodRest modifiers typeParams returnType name start none) fun m raws _ =>
      ReadsOn modifiers typeParams returnType name m ∧
        raws = m.params.flatMap Param.raws ++ m.statements.flatMap Statement.raws := by
  refine draws_params.bind fun params raws rest known => ?_
  obtain ⟨readable, rfl⟩ := known
  refine .skip (A := fun _ => True) .quiet fun dims rest _ => ?_
  refine .skip gives_throwsClause fun throws rest worded => ?_
  refine draws_body?.bind fun body raws rest known => .spanFrom fun span => .pure ?_
  obtain ⟨statements, rfl⟩ := known
  exact ⟨⟨rfl, rfl, ⟨dims, rfl⟩, rfl, rfl, readable, worded, statements⟩,
    by rw [List.append_nil]; rfl⟩

/-- The members are one method or constructor that can be read again, with what it keeps, or there
is none among them. -/
def IsCallable (className : String) (members : List Member) (raws : List (List Piece)) : Prop :=
  (∃ m : MethodDecl, members = [m.member] ∧ m.Readable className ∧
      (∀ s ∈ m.statements, s.Readable) ∧ raws = m.raws) ∨
    ∀ m, .constructor m ∉ members ∧ .method m ∉ members

theorem ReadsOn.isCallable {m : MethodDecl} (reads : ReadsOn modifiers typeParams none className m)
    (readable : modifiers.Readable) (params : ∀ p ∈ typeParams, p.Readable)
    (isName : IsName className) (leads : typeParams = [] → isModifierKeyword className = false) :
    IsCallable className [.constructor m]
      (modifiers.raws ++ (m.params.flatMap Param.raws ++ m.statements.flatMap Statement.raws)) := by
  obtain ⟨dims, returned⟩ := reads.returnType
  refine .inl ⟨m, ?_, ?_, reads.statements, by rw [MethodDecl.raws, reads.modifiers]⟩
  · rw [MethodDecl.member, MethodDecl.isConstructor, returned]
    rfl
  · exact reads.readable readable params (.inl isName) (fun t none => by cases none)
      (fun _ => ⟨rfl, isName⟩) leads

theorem gives_fields {type : TypeRef} {doc : Option String} :
    Gives (fieldRest modifiers type name start doc) fun members => ∀ m ∈ members, ∃ f, m = .field f := by
  refine Gives.quiet.bind fun first _ => Gives.quiet.bind fun others _ => ?_
  refine Gives.quiet.bind fun _ _ => Gives.quiet.bind fun span _ => .pure fun m member => ?_
  obtain ⟨declarator, _, rfl⟩ := List.mem_map.mp member
  exact ⟨_, rfl⟩

theorem draws_methodOrFields (readable : modifiers.Readable)
    (params : ∀ p ∈ typeParams, p.Readable)
    (leads : Draws ts typeRef fun t raws rest => raws = [] ∧ t.Worded ∧
      ∀ name behind, rest = wordToken name :: behind → typeParams = [] →
        LeadsDeclaration name (some t)) :
    Draws ts (methodOrFields modifiers typeParams start none) fun members raws _ =>
      IsCallable className members (modifiers.raws ++ raws) := by
  refine leads.step fun type rest known => ?_
  obtain ⟨worded, leads⟩ := known
  refine .identifier fun name behind shape word => .sees (.ite (fun _ => ?_) fun _ => ?_)
  · refine draws_methodRest.bind fun m raws rest known => .pure (.inl ?_)
    obtain ⟨reads, rfl⟩ := known
    have known : m.Readable className := reads.readable readable params word
      (fun t same => Option.some.inj same ▸ worded) nofun (leads name behind shape)
    obtain ⟨dims, returned⟩ := reads.returnType
    refine ⟨m, ?_, known, reads.statements, by rw [MethodDecl.raws, reads.modifiers, List.append_nil]⟩
    rw [MethodDecl.member, MethodDecl.isConstructor, returned]
    rfl
  · refine (Draws.given gives_fields).imp fun members raws rest known => .inr fun m => ?_
    refine ⟨fun member => ?_, fun member => ?_⟩ <;> obtain ⟨f, same⟩ := known.2 _ member <;> cases same

/-- No record named by a type comes next, nor the word for one in front of empty angles. -/
structure NoRecord (ts : List Token) : Prop where
  begins : beginsClass (ts.take 2) = false
  angles : ¬[.keyword .recordWord, .symbol .langle, .symbol .rangle] <+: ts

theorem BeginsType.leads {t : TypeRef} {behind : List Token}
    (begins : BeginsType ts t (wordToken name :: behind)) (plain : beginsModifier ts = false)
    (noRecord : NoRecord ts) : LeadsDeclaration name (some t) := by
  refine ⟨begins.leadsOn plain, ?_⟩
  rintro rfl
  obtain ⟨first, rest, rfl, head, alone⟩ := begins
  have record : IsWord Keyword.recordWord.text := .inr rfl
  have split : segments (TypeRef.simple Keyword.recordWord.text).name = [Keyword.recordWord.text] :=
    segments_of_dotFree record.dotFree
  rw [split] at head
  cases head
  rcases alone rfl with rfl | rfl
  · obtain ⟨same, _⟩ | ⟨_, token⟩ := wordToken_cases name
    · exact same
    · have begins := noRecord.begins
      rw [token] at begins
      cases begins
  · exact absurd ⟨_, rfl⟩ noRecord.angles

theorem eq_of_take {t t' : Token} (next : ts.take 2 = [t, t']) : ∃ behind, ts = t :: t' :: behind :=
  ⟨ts.drop 2, by rw [← List.take_append_drop 2 ts, next]; rfl⟩

theorem named_of_token {s : String} (same : .name s = wordToken name) (word : IsWord name) :
    s = name ∧ IsName name := by
  obtain ⟨_, token⟩ | ⟨other, token⟩ := wordToken_cases name <;> rw [token] at same <;> cases same
  exact ⟨rfl, word.resolve_right other⟩

theorem draws_typedMember (readable : modifiers.Readable) (plain : beginsModifier ts = false)
    (noRecord : NoRecord ts) :
    Draws ts (typedMember className modifiers start none) fun members raws _ =>
      IsCallable className members (modifiers.raws ++ raws) := by
  refine draws_typeParams.step fun typeParams rest known => .upcoming ?_
  obtain ⟨params, bare⟩ := known
  have leads (none : typeParams = []) (s : String) (behind : List Token)
      (shape : rest = .name s :: behind) : isModifierKeyword s = false := by
    rw [← bare none, shape] at plain
    exact plain
  refine .ite (fun next => ?_) fun _ => .ite (fun next => ?_) fun _ => ?_
  · obtain ⟨behind, rfl⟩ := eq_of_take next
    rw [compactConstructor, bind_assoc]
    refine .identifier fun name rest shape word => ?_
    obtain ⟨same, rfl⟩ := List.cons.inj shape
    obtain ⟨rfl, isName⟩ := named_of_token same word
    rw [bind_assoc]
    refine draws_block.bind fun body raws rest known => ?_
    obtain ⟨statements, rfl, _⟩ := known
    rw [bind_assoc]
    refine .spanFrom fun span => .pure ?_
    have reads : ReadsOn modifiers typeParams none className
        ⟨modifiers, typeParams, none, className, [], [], some body, none, span⟩ :=
      ⟨rfl, rfl, ⟨0, rfl⟩, rfl, rfl, nofun, nofun, statements⟩
    rw [List.append_nil]
    exact reads.isCallable readable params isName fun none => leads none _ _ rfl
  · obtain ⟨behind, rfl⟩ := eq_of_take next
    refine .identifier fun name rest shape word => ?_
    obtain ⟨same, rfl⟩ := List.cons.inj shape
    obtain ⟨rfl, isName⟩ := named_of_token same word
    refine draws_methodRest.bind fun m raws rest known => .pure ?_
    obtain ⟨reads, rfl⟩ := known
    rw [List.append_nil]
    exact reads.isCallable readable params isName fun none => leads none _ _ rfl
  · refine draws_methodOrFields readable params ?_
    by_cases none : typeParams = []
    · rw [bare none]
      refine (draws_typeRef_begins plain).imp fun t raws rest known => ⟨known.1, known.2.2, ?_⟩
      rintro name behind rfl _
      exact known.2.1.leads plain noRecord
    · exact draws_typeRef.imp fun t raws rest known =>
        ⟨known.1, known.2, fun _ _ _ empty => absurd empty none⟩

theorem draws_declaredMember
    (angles : ¬[.keyword .recordWord, .symbol .langle, .symbol .rangle] <:+: ts) :
    Draws ts (declaredMember classDecl className start) fun members raws _ =>
      IsCallable className members raws := by
  refine .docBefore (draws_modifiers.within.bind fun modifiers raws rest known => ?_)
  obtain ⟨⟨readable, rfl, plain⟩, suffix⟩ := known
  refine .upcoming (.ite (fun _ => ?_) fun begins => ?_)
  · refine .skip (gives_classDecl modifiers start none) fun id _ _ => .spanFrom fun span => .pure (.inr ?_)
    intro m
    simp
  · have noRecord : NoRecord rest :=
      ⟨by simpa using begins, fun found => angles (found.isInfix.trans suffix.isInfix)⟩
    refine (draws_typedMember readable plain noRecord).bind fun members raws _ known => ?_
    exact .skip (A := fun _ => True) .quiet fun _ _ _ => .pure (by simpa using known)

theorem draws_initializerBlock? : Draws ts (initializerBlock? start) fun found raws rest =>
    raws = [] ∧ (∀ m ∈ found, ∃ isStatic span, m = .initializer isStatic span) ∧
      (found = none → rest = ts) := by
  have static : Draws ts staticWord fun _ raws rest =>
      raws = [] ∧ (rest = ts ∨ rest.head? = some (.symbol .lbrace)) := by
    refine .upcoming (.ite (fun next => .advance (.pure ?_)) fun _ => .pure ⟨rfl, .inl rfl⟩)
    obtain ⟨behind, rfl⟩ := eq_of_take next
    exact ⟨rfl, .inr rfl⟩
  refine static.step fun isStatic rest known => .sees (.ite (fun _ => ?_) fun other => ?_)
  · refine .skip (A := fun _ => True) .quiet fun _ _ _ => ?_
    refine .skip (A := fun _ => True) .quiet fun _ _ _ => .spanFrom fun span => .pure ?_
    exact ⟨rfl, fun m same => ⟨isStatic, span, (Option.some.inj same).symm⟩, nofun⟩
  · refine .pure ⟨rfl, nofun, fun _ => known.resolve_right (by simpa using other)⟩

/-- What is read from the tokens of a member is a method or constructor that can be read again, or
none, unless the word for a record stands in front of empty angles somewhere. -/
theorem draws_member
    (angles : ¬[.keyword .recordWord, .symbol .langle, .symbol .rangle] <:+: ts) :
    Draws ts (member className) fun members raws _ => IsCallable className members raws := by
  refine .nextStart fun start => .accept (fun rest _ => .pure (.inr fun m => ?_)) fun _ => ?_
  · simp
  refine draws_initializerBlock?.step fun found rest known => ?_
  obtain ⟨block, same⟩ := known
  cases found with
  | none =>
    rw [same rfl]
    exact draws_declaredMember angles
  | some m =>
    obtain ⟨isStatic, span, rfl⟩ := block m rfl
    exact .pure (.inr fun m => by simp)

end Members

end Parser

end CreatorSynth
