import CreatorSynth.Proofs.Printer.Drawn

/-! Printing what was read from a Java text and reading it again changes no text. -/
namespace CreatorSynth
open Text

/-- Nothing but white space and tokens makes up the text. -/
def CommentFree (text : String) : Prop :=
  ∀ p ∈ rawPieces text, p.Bare

instance (text : String) : Decidable (CommentFree text) :=
  List.decidableBAll Piece.Bare (rawPieces text)

section Texts

variable {m m' : MethodDecl}

theorem Param.text_unspanned (p : Param) : p.unspanned.text = p.text := by
  rw [Param.text, Param.unspanned, Modifiers.unspanned, List.map_map]
  rfl

/-- What is printed depends on no place and, of the body, only on its text. -/
theorem MethodDecl.text_congr {d : Dialect} (front : m'.bodiless = m.bodiless)
    (body : m'.body.map (·.text d indentUnit) = m.body.map (·.text d indentUnit)) :
    m'.text d = m.text d := by
  simp only [MethodDecl.bodiless, MethodDecl.unspanned, MethodDecl.mk.injEq, true_and,
    and_true] at front
  obtain ⟨modifiers, typeParams, returned, name, params, throws, doc⟩ := front
  have keywords : m'.modifiers.keywords = m.modifiers.keywords :=
    (congrArg Modifiers.keywords modifiers :)
  have annotations : m'.modifiers.annotations.map (fun a => a.text ++ "\n") =
      m.modifiers.annotations.map fun a => a.text ++ "\n" := by
    have texts := congrArg (fun ms => ms.annotations.map fun a => a.text ++ "\n") modifiers
    rwa [Modifiers.unspanned, Modifiers.unspanned, List.map_map, List.map_map] at texts
  have params : m'.params.map Param.text = m.params.map Param.text := by
    have texts := congrArg (List.map Param.text) params
    simpa [Function.comp_def, Param.text_unspanned] using texts
  simp only [MethodDecl.text, MethodDecl.textIndented]
  rw [keywords, annotations, typeParams, returned, name, params, throws, doc]
  congr 1
  revert body
  cases m'.body <;> cases m.body <;> intro body
  · rfl
  · cases body
  · cases body
  · exact Option.some.inj body

end Texts

section Fixpoint

variable {text className : String} {m : MethodDecl} {found : Member}

theorem CommentFree.standing (free : CommentFree text) {located : List Located}
    (tokens : tokenize text = .ok located) :
    Parser.Standing (Parser.sourceOf text .java located) (Parser.start located) []
      (rawPieces text) := by
  have worded := Parser.worded_start tokens
  obtain ⟨pieces, whole, stand, rfl⟩ := Piece.exists_pieces_of_tokenize tokens
  have same := rawPieces_of_whole whole stand
  rw [CommentFree, same] at free
  rw [same]
  refine ⟨Parser.at_start whole, rfl, ?_, free, stand, worded⟩
  refine List.filter_eq_nil_iff.mpr fun t member doc => ?_
  have plain : t.token.isDoc = false := free _ (Piece.mem_of_mem_locate member)
  rw [plain] at doc
  cases doc

theorem MethodDecl.eq_of_member {m m' : MethodDecl}
    (same : m'.member = .constructor m ∨ m'.member = .method m) : m' = m := by
  rw [member] at same
  split at same <;> rcases same with same | same <;> cases same <;> rfl

/-- What is read from a text without comments can be read again, and what it keeps of the text
stands there one behind another. -/
theorem kept_of_parseMember (free : CommentFree text)
    (angles : ¬[.keyword .recordWord, .symbol .langle, .symbol .rangle] <:+:
      Piece.tokens (rawPieces text))
    (callable : found = .constructor m ∨ found = .method m)
    (read : parseMember text className .java = .ok found) :
    m.Readable className ∧ (∀ s ∈ m.statements, s.Readable) ∧ Piece.Unclosed m.raws := by
  obtain ⟨located, c', tokens, run, _⟩ := parseMember_eq_ok.mp read
  have standing := free.standing tokens
  obtain ⟨used, more, _, raws, split, _, holds, known⟩ :=
    (Parser.draws_member angles).draw standing rfl run
  have unclosed := (holds.followed more).unclosed (split ▸ standing.stand)
  rcases known with ⟨m', same, readable, statements, rfl⟩ | none
  · obtain rfl := MethodDecl.eq_of_member ((List.cons.inj same).1 ▸ callable)
    exact ⟨readable, statements, unclosed⟩
  · rcases callable with rfl | rfl
    · exact absurd List.mem_cons_self (none m).1
    · exact absurd List.mem_cons_self (none m).2

/-- The Java text of a constructor or method that was read from a Java source without comments is
read again, for the same class, as a declaration of the same text, if none of its statements is
taken for a part of the one in front of it. -/
theorem parseMember_fixpoint (free : CommentFree text)
    (angles : ¬[.keyword .recordWord, .symbol .langle, .symbol .rangle] <:+:
      Piece.tokens (rawPieces text))
    (callable : found = .constructor m ∨ found = .method m)
    (read : parseMember text className .java = .ok found) (settled : Settled m.statements) :
    ∃ again : MethodDecl, parseMember (m.text .java) className .java = .ok again.member ∧
      again.bodiless = m.bodiless ∧ again.text .java = m.text .java := by
  obtain ⟨readable, statements, unclosed⟩ := kept_of_parseMember free angles callable read
  have tokens := MethodDecl.tokenize_java readable statements unclosed
  let located := Piece.locate 0 (m.piecesWith m.bodyPieces)
  have docs : ∀ doc ∈ (Parser.sourceOf (m.text .java) .java located).docs, 0 < doc.stop := by
    intro doc member
    have stands := (tokenize_places tokens).2 doc (List.mem_filter.mp member).1
    exact Nat.lt_of_le_of_lt (Nat.zero_le _) stands.some
  have here : Parser.At (Parser.sourceOf (m.text .java) .java located) (Parser.start located) []
      (m.piecesWith m.bodyPieces) :=
    Parser.at_start (MethodDecl.flatMap_text_bodyPieces readable statements)
  have begins : ∃ s, Parser.BeginsBody s ∧ (Piece.tokens m.bodyPieces).head? = some (.symbol s) := by
    rw [MethodDecl.bodyPieces]
    cases m.body with
    | none => exact ⟨.semicolon, .inr rfl, rfl⟩
    | some b => exact ⟨.lbrace, .inl rfl, rfl⟩
  obtain ⟨s, form, begins⟩ := begins
  obtain ⟨again, c', run, front, body, ended⟩ := Parser.member_of_piecesWith readable form begins
    (Parser.takes_body?_text rfl statements settled) docs here
  refine ⟨again, parseMember_eq_ok.mpr ⟨located, c', tokens, run, ended⟩, front, ?_⟩
  exact MethodDecl.text_congr front body

def loopsApart : String :=
  "@A(\"a\") <T> int m(final T[] a, B... b)[] throws E " ++
    "\x7b if (x) \x7b\x7d ; while (y) \x7b\x7d ; a = \x7b1\x7d; \x7d"

/-- What `loopsApart` is read as. -/
def loopsDecl : MethodDecl where
  modifiers := ⟨[], [⟨"A", some "\"a\"", ⟨0, 7⟩⟩]⟩
  typeParams := [⟨"T", []⟩]
  returnType := some ⟨"int", [], 1⟩
  name := "m"
  params := [⟨⟨["final"], []⟩, ⟨"T", [], 1⟩, "a", false, ⟨18, 29⟩⟩,
    ⟨.empty, .simple "B", "b", true, ⟨31, 37⟩⟩]
  throws := [.simple "E"]
  body := some ⟨[.other "if (x) \x7b\x7d" ⟨52, 61⟩, .other "while (y) \x7b\x7d" ⟨64, 76⟩,
    .assign false "a" "\x7b1\x7d" ⟨79, 87⟩], ⟨50, 89⟩⟩
  doc := none
  span := ⟨0, 89⟩

/-- Printed without the empty statement between them, the loops are read as one statement. -/
theorem loopsDecl_fixpoint : parseMember loopsApart "A" .java = .ok (.method loopsDecl) ∧
    ∃ again : MethodDecl, parseMember (loopsDecl.text .java) "A" .java = .ok again.member ∧
      again.bodiless = loopsDecl.bodiless ∧ again.text .java = loopsDecl.text .java := by
  have free : CommentFree loopsApart := by decide +kernel
  have angles : ¬[.keyword .recordWord, .symbol .langle, .symbol .rangle] <:+:
      Piece.tokens (rawPieces loopsApart) := by decide +kernel
  have read : parseMember loopsApart "A" .java = .ok (.method loopsDecl) := by decide +kernel
  have settled : Settled loopsDecl.statements := by decide +kernel
  exact ⟨read, parseMember_fixpoint free angles (.inr rfl) read settled⟩

def strayAssignment : String :=
  "void m() \x7b if (x) \x7b\x7d ; while = \x7b1\x7d + 2; \x7d"

/-- What `strayAssignment` is read as. -/
def strayDecl : MethodDecl where
  modifiers := .empty
  typeParams := []
  returnType := some (.simple "void")
  name := "m"
  params := []
  throws := []
  body := some ⟨[.other "if (x) \x7b\x7d" ⟨11, 20⟩, .assign false "while" "\x7b1\x7d + 2" ⟨23, 39⟩],
    ⟨9, 41⟩⟩
  doc := none
  span := ⟨0, 41⟩

/-- Behind a block, an assignment to a field that is called `while` is read as a loop, and what is
left of it behind the brace as a statement of its own. -/
theorem strayDecl_no_fixpoint : CommentFree strayAssignment ∧
    ¬[.symbol .langle, .symbol .rangle] <:+: Piece.tokens (rawPieces strayAssignment) ∧
    parseMember strayAssignment "A" .java = .ok (.method strayDecl) ∧
    ¬∃ found again, parseMember (strayDecl.text .java) "A" .java = .ok found ∧
      (found = .constructor again ∨ found = .method again) ∧
      again.text .java = strayDecl.text .java := by
  refine ⟨by decide +kernel, by decide +kernel, by decide +kernel, ?_⟩
  rintro ⟨found, again, read, callable, same⟩
  have differs : (match parseMember (strayDecl.text .java) "A" .java with
      | .ok (.constructor m) | .ok (.method m) => decide (m.text .java = strayDecl.text .java)
      | _ => false) = false := by decide +kernel
  rw [read] at differs
  rcases callable with rfl | rfl <;> simp [same] at differs

end Fixpoint

end CreatorSynth
