import CreatorSynth.Proofs.Creator.Prototype
import CreatorSynth.Proofs.Printer.Members

/-! The names of classes that are not read where the name of a constructor stands. Of the two words
that can name a class and yet mean something else to the parser, `sealed` is taken for a modifier,
and `record`, being a keyword, is not compared with the name of the class but taken for a type. -/
namespace CreatorSynth

def unreadNames : List String :=
  ["record", "sealed"]

namespace Parser
open Piece

variable {src : Source} {pieces more : List Piece} {className : String} {modifiers : Modifiers}
  {typeParams : List TypeParam} {start : Nat} {doc : Option String}

section Types

theorem fails_identifier : Fails src identifier (.token (.symbol .lparen) :: more) := by
  refine ⟨fun {c before} here => ⟨mismatchAt src c .identifier, ?_⟩⟩
  rw [on_identifier, here.head]
  rfl

theorem fails_typeRef : Fails src typeRef (.token (.symbol .lparen) :: more) :=
  .look takes_get fun _ _ =>
    .look (takes_annotations_none (by simp)) fun _ _ => fails_identifier.bind

theorem takes_typeRef_word {s : String} (word : IsWord s) :
    Takes src typeRef [.token (wordToken s)] (.token (.symbol .lparen) :: more) (· = .simple s) := by
  rw [← dottedPieces_of_dotFree word.dotFree, ← TypeRef.pieces_simple]
  exact takes_typeRef (TypeRef.worded_simple word.isPath) (endsType_of_head? (by simp))

end Types

section Members

theorem fails_methodOrFields :
    Fails src (methodOrFields modifiers typeParams start doc) (.token (.symbol .lparen) :: more) :=
  fails_typeRef.bind

theorem fails_methodOrFields_word {s : String} (word : IsWord s) :
    Fails src (methodOrFields modifiers typeParams start doc)
      (.token (wordToken s) :: .token (.symbol .lparen) :: more) :=
  .step (takes_typeRef_word word) fun _ _ => fails_identifier.bind

theorem fails_typedMember (angle : (tokens more).head? ≠ some (.symbol .langle))
    (other : (tokens more).head? ≠ some (.name className))
    (unread : ∀ typeParams, Fails src (methodOrFields modifiers typeParams start doc) more) :
    Fails src (typedMember className modifiers start doc) more := by
  have apart : ∀ t, (tokens more).take 2 ≠ [.name className, t] := fun t next =>
    other (head_of_take next)
  refine .look (@takes_typeParams _ _ [] nofun angle) fun typeParams _ => ?_
  refine .look (takes_upcoming 2) fun next same => ?_
  subst same
  rw [if_neg (apart _), if_neg (apart _)]
  exact unread typeParams

theorem takes_modifierWord {word : String} (known : isModifierKeyword word = true) :
    Takes src modifier [.token (.name word)] more fun found => ∃ a, found = some a := by
  refine (takes_upcoming 2).look fun _ same => ?_
  subst same
  simp only [List.cons_append, List.nil_append, tokens_name, List.take_succ_cons, modifierFrom,
    if_pos known]
  exact (takes_advance rfl).finish fun _ _ => .pure ⟨_, rfl⟩

/-- Words for modifiers, each with or without a blank behind it. -/
def ModifierWords (items : List (List Piece)) : Prop :=
  ∀ item ∈ items, ∃ word, isModifierKeyword word = true ∧
    (item = [.token (.name word)] ∨ item = [.token (.name word), .gap [' ']])

theorem takes_modifierWords {items : List (List Piece)} (words : ModifierWords items)
    (done : Takes src modifier [] more (· = none)) :
    Takes src Parser.modifiers items.flatten more fun _ => True := by
  have loop : Takes src (many modifier) (items.flatMap id) more fun found =>
      found.map (fun _ => ()) = items.map fun _ => () := by
    refine takes_many (fun _ => True) (fun item member more _ => ?_) (fun _ _ _ => trivial) trivial
      (fun item member => ?_) done
    · obtain ⟨word, known, rfl | rfl⟩ := words item member
      · exact (takes_modifierWord known).weaken fun found ⟨a, same⟩ => ⟨a, same, rfl⟩
      · exact (takes_modifierWord known).gap_behind.weaken fun found ⟨a, same⟩ => ⟨a, same, rfl⟩
    · obtain ⟨word, _, rfl | rfl⟩ := words item member <;> simp
  rw [List.flatMap_id] at loop
  exact loop.finish fun _ _ => .pure trivial

theorem exists_accessItems (d : Dialect) :
    ∃ items, ModifierWords items ∧ d.accessPieces = items.flatten := by
  cases d with
  | java =>
    refine ⟨[[.token (.name "public"), .gap [' ']]], List.forall_mem_singleton.mpr ?_, rfl⟩
    exact ⟨"public", by decide, .inr rfl⟩
  | groovy => exact ⟨[], nofun, rfl⟩

variable {items : List (List Piece)} {nested : Modifiers → Nat → Option String → Parser ClassId}

theorem fails_declaredMember (taken : Takes src Parser.modifiers pieces more fun _ => True)
    (noClass : beginsClass ((tokens more).take 2) = false)
    (unread : ∀ modifiers doc, Fails src (typedMember className modifiers start doc) more) :
    Fails src (declaredMember nested className start) (pieces ++ more) := by
  refine .look (takes_docBefore start) fun doc _ => .behind taken fun modifiers _ => ?_
  refine .look (takes_upcoming 2) fun next same => ?_
  subst same
  rw [noClass]
  exact (unread modifiers doc).bind

/-- In front of a parenthesis the word begins no record, but it is no name either. -/
theorem fails_declaredMember_record (words : ModifierWords items) :
    Fails src (declaredMember nested className start)
      (items.flatten ++ .token (.keyword .recordWord) :: .token (.symbol .lparen) :: more) := by
  refine fails_declaredMember
    (takes_modifierWords words (takes_modifier_none_of_token rfl fun _ => rfl)) rfl
    fun modifiers doc => fails_typedMember (by simp) (by simp) fun typeParams => ?_
  exact fails_methodOrFields_word (.inr rfl : IsWord Keyword.recordWord.text)

/-- The word is one more modifier, and a parenthesis begins no member. -/
theorem fails_declaredMember_sealed (words : ModifierWords items) :
    Fails src (declaredMember nested className start)
      (items.flatten ++ .token (.name "sealed") :: .token (.symbol .lparen) :: more) := by
  have all : ModifierWords (items ++ [[.token (.name "sealed")]]) := by
    intro item member
    rcases List.mem_append.mp member with access | last
    · exact words item access
    · exact ⟨"sealed", by decide, .inl (List.mem_singleton.mp last)⟩
  have failing : Fails src (declaredMember nested className start)
      ((items ++ [[token (.name "sealed")]]).flatten ++ .token (.symbol .lparen) :: more) :=
    fails_declaredMember
      (takes_modifierWords all (takes_modifier_none_of_token rfl fun _ => rfl)) rfl
      fun modifiers doc => fails_typedMember (by simp) (by simp) fun _ => fails_methodOrFields
  simpa using failing

theorem fails_member {t : Token} {others : List Token} (begins : tokens pieces = t :: others)
    (word : ∀ s, t ≠ .symbol s) (behind : others.head? ≠ some (.symbol .lbrace))
    (unread : ∀ start, Fails src (declaredMember classDecl className start) pieces) :
    Fails src (member className) pieces := by
  refine .look takes_nextStart fun start _ => ?_
  refine .look (takes_accept_none (by simpa [begins] using word .semicolon)) fun _ same => ?_
  subst same
  have notStatic : (tokens pieces).take 2 ≠ [.name "static", .symbol .lbrace] := by
    rw [begins]
    cases others with
    | nil => simp
    | cons next others => simpa using fun _ => behind
  refine .look (takes_initializerBlock?_none notStatic (by simpa [begins] using word .lbrace))
    fun _ same => ?_
  subst same
  exact unread start

theorem fails_member_stubPieces {lines : List BodyLine} (unread : className ∈ unreadNames) :
    Fails src (member className) ((stubPieces src.dialect className lines).map asCut) := by
  rw [map_asCut_stubPieces]
  obtain ⟨t, others, begins, word, behind⟩ : ∃ t others, tokens (src.dialect.accessPieces ++
      .token (wordToken className) :: .token (.symbol .lparen) :: .token (.symbol .rparen) ::
      .gap [' '] :: .token (.symbol .lbrace) :: (bodyPieces src.dialect lines).map asCut) =
        t :: others ∧ (∀ s, t ≠ .symbol s) ∧ others.head? ≠ some (.symbol .lbrace) := by
    cases src.dialect with
    | java => exact ⟨.name "public", _, rfl, nofun, by simp⟩
    | groovy => exact ⟨wordToken className, _, tokens_word _ _, wordToken_ne_symbol _, by simp⟩
  refine fails_member begins word behind fun start => ?_
  obtain ⟨items, words, access⟩ := exists_accessItems src.dialect
  rw [access]
  rcases List.mem_cons.mp unread with rfl | last
  · exact fails_declaredMember_record words
  · rw [List.mem_singleton.mp last]
    exact fails_declaredMember_sealed words

end Members

end Parser

theorem isWord_of_unread {name : String} (unread : name ∈ unreadNames) : IsWord name := by
  rcases List.mem_cons.mp unread with rfl | last
  · exact .inr rfl
  · rw [List.mem_singleton.mp last]
    exact .inl (isName_of_lexesAsName (by decide))

/-- A generated constructor of such a class is not read back. -/
theorem parseMember_unread {text className : String} {lines : List BodyLine} {d : Dialect}
    (whole : (stubPieces d className lines).flatMap Piece.text = text.toList)
    (unread : className ∈ unreadNames) (worded : ∀ line ∈ lines, line.Worded) :
    ∃ e, parseMember text className d = .error e := by
  obtain ⟨src, c, run, rfl, here⟩ := Parser.run_of_pieces
    ((Piece.flatMap_text_asCut _).trans whole)
    (allStand_stubPieces (isWord_of_unread unread) worded).fit (Parser.member className) d
  obtain ⟨e, failed⟩ := (Parser.fails_member_stubPieces unread).fail here
  exact ⟨e, by rw [parseMember, run, failed]; rfl⟩

end CreatorSynth
