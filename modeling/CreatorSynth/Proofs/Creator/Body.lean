import CreatorSynth.Creator.Body
import CreatorSynth.Proofs.Token.Words

/-! The text of a generated constructor piece by piece, and that the lexer cuts it into these
pieces, save that it takes the word `record` for a keyword. -/
namespace CreatorSynth
open Text

/-- A line of a generated body. -/
inductive BodyLine
  | superCall (names : List String)
  | assign (qualified : Bool) (field param : String)
  deriving DecidableEq, Repr

/-- Names with a comma between them. -/
def namePieces : List String → List Piece
  | [] => []
  | [name] => [.token (.name name)]
  | name :: names =>
      .token (.name name) :: .token (.symbol .comma) :: .gap [' '] :: namePieces names

def Dialect.terminatorPieces : Dialect → List Piece
  | java => [.token (.symbol .semicolon)]
  | groovy => []

namespace BodyLine

def text (d : Dialect) : BodyLine → String
  | superCall names => "super(" ++ ", ".intercalate names ++ ")" ++ d.terminator
  | assign qualified field param =>
      (if qualified then "this." else "") ++ field ++ " = " ++ param ++ d.terminator

def pieces (d : Dialect) : BodyLine → List Piece
  | superCall names =>
      .token (.keyword .superWord) :: .token (.symbol .lparen) ::
        (namePieces names ++ .token (.symbol .rparen) :: d.terminatorPieces)
  | assign qualified field param =>
      (if qualified then [.token (.keyword .thisWord), .token (.symbol .dot)] else []) ++
        .token (.name field) :: .gap [' '] :: .token (.symbol .equals) :: .gap [' '] ::
          .token (.name param) :: d.terminatorPieces

/-- What the line says. -/
def statement : BodyLine → Statement
  | superCall names => .superCall names Span.none
  | assign qualified field param => .assign qualified field param Span.none

/-- The line is made of names, and of one at least. -/
def Proper : BodyLine → Prop
  | superCall names => names ≠ [] ∧ ∀ name ∈ names, IsName name
  | assign _ field param => IsName field ∧ IsName param

/-- The line is made of words, and of one at least. -/
def Worded : BodyLine → Prop
  | superCall names => names ≠ [] ∧ ∀ name ∈ names, IsWord name
  | assign _ field param => IsWord field ∧ IsWord param

theorem Proper.worded {line : BodyLine} (proper : line.Proper) : line.Worded := by
  cases line with
  | superCall names => exact ⟨proper.1, fun name member => .inl (proper.2 name member)⟩
  | assign qualified field param => exact ⟨.inl proper.1, .inl proper.2⟩

end BodyLine

/-- What stands before the name of a generated constructor. -/
def Dialect.accessPieces : Dialect → List Piece
  | java => [.token (.name "public"), .gap [' ']]
  | groovy => []

/-- What stands behind the brace that opens a body: lines, and the brace that closes it. -/
def bodyPieces (d : Dialect) : List BodyLine → List Piece
  | [] => [.gap ['\n'], .token (.symbol .rbrace), .gap ['\n']]
  | line :: lines =>
      .gap ['\n', ' ', ' ', ' ', ' '] :: (line.pieces d ++ bodyPieces d lines)

/-- A generated constructor without parameters. -/
def stubPieces (d : Dialect) (name : String) (lines : List BodyLine) : List Piece :=
  d.accessPieces ++ .token (.name name) :: .token (.symbol .lparen) :: .token (.symbol .rparen) ::
    .gap [' '] :: .token (.symbol .lbrace) :: bodyPieces d lines

/-- The piece that the lexer cuts off where this one is written. -/
def Piece.asCut : Piece → Piece
  | .token (.name s) => .token (wordToken s)
  | piece => piece

theorem Piece.text_asCut (piece : Piece) : piece.asCut.text = piece.text := by
  cases piece with
  | gap cs => rfl
  | token t =>
    cases t with
    | name s => exact text_word s
    | _ => rfl

@[simp] theorem Piece.flatMap_text_asCut (pieces : List Piece) :
    (pieces.map asCut).flatMap text = pieces.flatMap text := by
  simp only [List.flatMap_map, text_asCut]

theorem Piece.map_asCut {pieces : List Piece}
    (names : ∀ s, .token (.name s) ∈ pieces → IsName s) : pieces.map asCut = pieces := by
  refine (List.map_congr_left fun piece member => ?_).trans (List.map_id pieces)
  cases piece with
  | gap cs => rfl
  | token t =>
    cases t with
    | name s => rw [asCut, wordToken_of_isName (names s member), id]
    | _ => rfl

theorem flatMap_text_terminatorPieces (d : Dialect) :
    d.terminatorPieces.flatMap Piece.text = d.terminator.toList := by
  cases d <;> rfl

theorem flatMap_text_namePieces (names : List String) :
    (namePieces names).flatMap Piece.text = (", ".intercalate names).toList := by
  fun_induction namePieces names with
  | case1 => rfl
  | case2 name => simp [Piece.text, Token.text]
  | case3 name names more ih =>
    rw [String.intercalate_cons_of_ne_nil more]
    simp [Piece.text, Token.text, Symbol.text, ih]

theorem BodyLine.flatMap_text_pieces (d : Dialect) (line : BodyLine) :
    (line.pieces d).flatMap Piece.text = (line.text d).toList := by
  cases line with
  | superCall names =>
    simp [pieces, text, flatMap_text_namePieces, flatMap_text_terminatorPieces, Piece.text,
      Token.text, Keyword.text, Symbol.text]
  | assign qualified field param =>
    cases qualified <;>
      simp [pieces, text, flatMap_text_terminatorPieces, Piece.text, Token.text, Keyword.text,
        Symbol.text]

theorem flatMap_text_bodyPieces (d : Dialect) (lines : List BodyLine) :
    (bodyPieces d lines).flatMap Piece.text =
      '\n' :: (lines.flatMap fun line => "    ".toList ++ (line.text d).toList ++ ['\n']) ++
        ['}', '\n'] := by
  induction lines with
  | nil => rfl
  | cons line lines ih =>
    simp [bodyPieces, BodyLine.flatMap_text_pieces, ih, Piece.text]

theorem flatMap_text_stubPieces (d : Dialect) (name : String) (lines : List BodyLine) :
    (stubPieces d name lines).flatMap Piece.text =
      (((d.accessPieces.flatMap Piece.text ++ name.toList ++ "() \x7b".toList) ++ ['\n']) ++
        lines.flatMap fun line => "    ".toList ++ (line.text d).toList ++ ['\n']) ++
        ['}', '\n'] := by
  simp [stubPieces, flatMap_text_bodyPieces, Piece.text, Token.text, Symbol.text]

namespace BodyText

/-- Lines written one after another. -/
def addLines (d : Dialect) (b : BodyText) (lines : List BodyLine) : BodyText :=
  lines.foldl (fun b line => b.addLine (line.text d)) b

theorem addLines_level (d : Dialect) (b : BodyText) (lines : List BodyLine) :
    (b.addLines d lines).level = b.level := by
  induction lines generalizing b with
  | nil => rfl
  | cons line lines ih => exact ih _

theorem addLines_text (d : Dialect) {b : BodyText} (inside : b.level = 1)
    (lines : List BodyLine) :
    (b.addLines d lines).text.toList =
      b.text.toList ++ lines.flatMap fun line => "    ".toList ++ (line.text d).toList ++ ['\n'] := by
  induction lines generalizing b with
  | nil => simp [addLines]
  | cons line lines ih =>
    have first := ih (b := b.addLine (line.text d)) inside
    rw [addLines, List.foldl_cons, ← addLines, first]
    simp [addLine, add, inside, repeated, indentUnit]

theorem superCall_eq_addLines (d : Dialect) (b : BodyText) (inherited : List Param) :
    b.superCall d inherited =
      b.addLines d (if inherited = [] then [] else [.superCall (inherited.map (·.name))]) := by
  cases inherited <;> rfl

theorem assignFields_eq_addLines (d : Dialect) (b : BodyText) (fields : List FieldDescriptor)
    (own : List Param) (taken : List String) :
    b.assignFields d fields own taken =
      b.addLines d ((fields.zip own).map fun pair =>
        .assign (decide (pair.1.name = pair.2.name ∨ pair.1.name ∈ taken)) pair.1.name
          pair.2.name) := by
  rw [assignFields, addLines, List.foldl_map]
  simp only [assignmentText, BodyLine.text, decide_eq_true_eq]

end BodyText

/-- The lines of the body that hands over inherited parameters and assigns fields from their own. -/
def bodyLines (inherited : List Param) (fields : List FieldDescriptor) (own : List Param)
    (taken : List String) : List BodyLine :=
  (if inherited = [] then [] else [.superCall (inherited.map (·.name))]) ++
    (fields.zip own).map fun pair =>
      .assign (decide (pair.1.name = pair.2.name ∨ pair.1.name ∈ taken)) pair.1.name pair.2.name

theorem text_of_generated (d : Dialect) (name : String) (inherited : List Param)
    (fields : List FieldDescriptor) (own : List Param) (taken : List String) :
    (((BodyText.empty.start d name []).superCall d inherited).assignFields d fields own
        taken).finish.text.toList =
      (stubPieces d name (bodyLines inherited fields own taken)).flatMap Piece.text := by
  have lines : ((BodyText.empty.start d name []).superCall d inherited).assignFields d fields own
      taken = (BodyText.empty.start d name []).addLines d
        (bodyLines inherited fields own taken) := by
    rw [BodyText.superCall_eq_addLines, BodyText.assignFields_eq_addLines, bodyLines,
      BodyText.addLines, BodyText.addLines, BodyText.addLines, List.foldl_append]
  have opened : (BodyText.empty.start d name []).text.toList =
      d.accessPieces.flatMap Piece.text ++ name.toList ++ "() \x7b".toList ++ ['\n'] := by
    cases d <;>
      simp [BodyText.start, BodyText.empty, BodyText.addLine, BodyText.add, BodyText.indent,
        repeated, paramListText, Dialect.accessPieces, Piece.text, Token.text]
  have written := BodyText.addLines_text d (b := BodyText.empty.start d name []) rfl
    (bodyLines inherited fields own taken)
  have level := BodyText.addLines_level d (BodyText.empty.start d name [])
    (bodyLines inherited fields own taken)
  have closed : ∀ b : BodyText, b.level = 1 → b.finish.text.toList =
      b.text.toList ++ ['}', '\n'] := by
    intro b inside
    simp [BodyText.finish, BodyText.addLine, BodyText.add, BodyText.dedent, inside, repeated]
  rw [lines, closed _ level, written, opened, flatMap_text_stubPieces]

section Cuts
open Piece

theorem allStand_terminatorPieces (d : Dialect) (rest : List Char) :
    AllStand d.terminatorPieces rest := by
  cases d with
  | java => exact ⟨stands_symbol nofun, trivial⟩
  | groovy => trivial

theorem not_isNamePart_of_terminator (d : Dialect) (rest : List Char) :
    (d.terminatorPieces.flatMap text ++ '\n' :: rest).head?.any isNamePart = false := by
  cases d with
  | java =>
    change isNamePart ';' = false
    decide
  | groovy =>
    change isNamePart '\n' = false
    decide

theorem stands_blank {rest : List Char} (apart : rest.head?.any isGapChar = false) :
    (gap [' ']).Stands rest :=
  stands_gap (List.cons_ne_nil _ _) (by decide) apart

theorem not_isGapChar_of_isWord {name : String} (word : IsWord name) (rest : List Char) :
    (name.toList ++ rest).head?.any isGapChar = false := by
  obtain ⟨c, cs, shape, start, _⟩ := word.shape
  rw [shape]
  exact isGapChar_of_isNamePart (isNamePart_of_isNameStart start)

theorem not_dots_of_isWord {name : String} (word : IsWord name) (rest : List Char) :
    ¬['.', '.'] <+: name.toList ++ rest := by
  obtain ⟨c, cs, shape, start, _⟩ := word.shape
  rintro ⟨more, dots⟩
  rw [shape] at dots
  obtain ⟨rfl, _⟩ := List.cons.inj dots
  exact absurd start (by decide)

theorem exists_namePieces_cons (name : String) (names : List String) :
    ∃ more, namePieces (name :: names) = .token (.name name) :: more := by
  cases names with
  | nil => exact ⟨_, rfl⟩
  | cons => exact ⟨_, rfl⟩

theorem allStand_map_namePieces {names : List String} {rest : List Char}
    (words : ∀ name ∈ names, IsWord name) (apart : rest.head?.any isNamePart = false) :
    AllStand ((namePieces names).map asCut) rest := by
  fun_induction namePieces names with
  | case1 => trivial
  | case2 name => exact ⟨stands_word (words name List.mem_cons_self) apart, trivial⟩
  | case3 name names more ih =>
    have others := ih fun other member => words other (List.mem_cons_of_mem _ member)
    refine ⟨stands_word (words name List.mem_cons_self) ?_, stands_symbol nofun, ?_, others⟩
    · change isNamePart ',' = false
      decide
    · cases names with
      | nil => exact absurd rfl more
      | cons second names =>
        obtain ⟨later, same⟩ := exists_namePieces_cons second names
        rw [flatMap_text_asCut, same]
        simp only [List.flatMap_cons, List.append_assoc]
        exact stands_blank (not_isGapChar_of_isWord (words second (by simp)) _)

theorem mem_of_mem_namePieces {names : List String} {s : String}
    (member : .token (.name s) ∈ namePieces names) : s ∈ names := by
  fun_induction namePieces names with
  | case1 => cases member
  | case2 name => simpa using member
  | case3 name names more ih =>
    rcases List.mem_cons.mp member with same | later
    · cases same
      exact List.mem_cons_self
    · exact List.mem_cons_of_mem _ (ih (by simpa using later))

theorem map_asCut_namePieces {names : List String} (proper : ∀ name ∈ names, IsName name) :
    (namePieces names).map asCut = namePieces names :=
  map_asCut fun s member => proper s (mem_of_mem_namePieces member)

theorem allStand_namePieces {names : List String} {rest : List Char}
    (proper : ∀ name ∈ names, IsName name) (apart : rest.head?.any isNamePart = false) :
    AllStand (namePieces names) rest := by
  rw [← map_asCut_namePieces proper]
  exact allStand_map_namePieces (fun name member => .inl (proper name member)) apart

theorem map_asCut_terminatorPieces (d : Dialect) :
    d.terminatorPieces.map asCut = d.terminatorPieces := by
  cases d <;> rfl

theorem BodyLine.allStand_map {d : Dialect} {line : BodyLine} (worded : line.Worded)
    (rest : List Char) : AllStand ((line.pieces d).map asCut) ('\n' :: rest) := by
  cases line with
  | superCall names =>
    have call : AllStand (.token (.keyword .superWord) :: .token (.symbol .lparen) ::
        ((namePieces names).map asCut ++ .token (.symbol .rparen) :: d.terminatorPieces))
        ('\n' :: rest) := by
      refine ⟨stands_keyword ?_, stands_symbol nofun, ?_⟩
      · change isNamePart '(' = false
        decide
      · refine allStand_append.mpr ⟨allStand_map_namePieces worded.2 ?_, stands_symbol nofun,
          allStand_terminatorPieces d _⟩
        change isNamePart ')' = false
        decide
    simpa [pieces, asCut, map_asCut_terminatorPieces] using call
  | assign qualified field param =>
    have value : AllStand (.token (wordToken field) :: .gap [' '] :: .token (.symbol .equals) ::
        .gap [' '] :: .token (wordToken param) :: d.terminatorPieces) ('\n' :: rest) := by
      refine ⟨stands_word worded.1 ?_, stands_blank ?_, stands_symbol nofun, stands_blank ?_,
        stands_word worded.2 (not_isNamePart_of_terminator d rest),
        allStand_terminatorPieces d _⟩
      · change isNamePart ' ' = false
        decide
      · change isGapChar '=' = false
        decide
      · simp only [List.flatMap_cons, List.append_assoc, text_word]
        exact not_isGapChar_of_isWord worded.2 _
    cases qualified with
    | false => simpa [pieces, asCut, map_asCut_terminatorPieces] using value
    | true =>
      have call : AllStand (.token (.keyword .thisWord) :: .token (.symbol .dot) ::
          .token (wordToken field) :: .gap [' '] :: .token (.symbol .equals) :: .gap [' '] ::
          .token (wordToken param) :: d.terminatorPieces) ('\n' :: rest) := by
        refine ⟨stands_keyword ?_, stands_symbol ?_, value⟩
        · change isNamePart '.' = false
          decide
        · intro _
          simp only [List.flatMap_cons, List.append_assoc, text_word]
          exact not_dots_of_isWord worded.1 _
      simpa [pieces, asCut, map_asCut_terminatorPieces] using call

theorem BodyLine.map_asCut_pieces (d : Dialect) {line : BodyLine} (proper : line.Proper) :
    (line.pieces d).map asCut = line.pieces d := by
  refine map_asCut fun s member => ?_
  cases line with
  | superCall names =>
    refine proper.2 s (mem_of_mem_namePieces ?_)
    cases d <;> simpa [pieces, Dialect.terminatorPieces] using member
  | assign qualified field param =>
    have either : s = field ∨ s = param := by
      cases d <;> cases qualified <;> simpa [pieces, Dialect.terminatorPieces] using member
    rcases either with rfl | rfl
    · exact proper.1
    · exact proper.2

theorem BodyLine.allStand {d : Dialect} {line : BodyLine} (proper : line.Proper)
    (rest : List Char) : AllStand (line.pieces d) ('\n' :: rest) := by
  rw [← map_asCut_pieces d proper]
  exact allStand_map proper.worded rest

theorem BodyLine.exists_text_pieces {d : Dialect} {line : BodyLine} (worded : line.Worded) :
    ∃ c rest, (line.pieces d).flatMap Piece.text = c :: rest ∧ isNamePart c = true := by
  cases line with
  | superCall names => exact ⟨'s', _, rfl, by decide⟩
  | assign qualified field param =>
    cases qualified with
    | true => exact ⟨'t', _, rfl, by decide⟩
    | false =>
      obtain ⟨c, cs, shape, start, _⟩ := worded.1.shape
      have begins : ∃ rest, (field.toList ++ rest) =
          ((assign false field param).pieces d).flatMap Piece.text := ⟨_, rfl⟩
      obtain ⟨rest, begins⟩ := begins
      rw [shape] at begins
      exact ⟨c, cs ++ rest, begins.symm, isNamePart_of_isNameStart start⟩

theorem exists_bodyPieces_text (d : Dialect) (lines : List BodyLine) :
    ∃ rest, (bodyPieces d lines).flatMap text = '\n' :: rest := by
  cases lines with
  | nil => exact ⟨_, rfl⟩
  | cons line lines => exact ⟨_, rfl⟩

theorem map_asCut_bodyPieces_cons (d : Dialect) (line : BodyLine) (lines : List BodyLine) :
    (bodyPieces d (line :: lines)).map asCut = .gap ['\n', ' ', ' ', ' ', ' '] ::
      ((line.pieces d).map asCut ++ (bodyPieces d lines).map asCut) := by
  simp [bodyPieces, asCut]

theorem allStand_map_bodyPieces {d : Dialect} {lines : List BodyLine}
    (worded : ∀ line ∈ lines, line.Worded) : AllStand ((bodyPieces d lines).map asCut) [] := by
  induction lines with
  | nil =>
    exact ⟨stands_gap (List.cons_ne_nil _ _) (by decide) (by decide), stands_symbol nofun,
      stands_gap (List.cons_ne_nil _ _) (by decide) rfl, trivial⟩
  | cons line lines ih =>
    have first := worded line List.mem_cons_self
    have others := ih fun other member => worded other (List.mem_cons_of_mem _ member)
    obtain ⟨rest, shape⟩ := exists_bodyPieces_text d lines
    rw [map_asCut_bodyPieces_cons]
    refine ⟨stands_gap (List.cons_ne_nil _ _) (by decide) ?_, allStand_append.mpr ⟨?_, others⟩⟩
    · obtain ⟨c, cs, begins, part⟩ := BodyLine.exists_text_pieces (d := d) first
      rw [List.flatMap_append, flatMap_text_asCut, begins]
      exact isGapChar_of_isNamePart part
    · rw [flatMap_text_asCut, shape, List.append_nil]
      exact BodyLine.allStand_map first rest

theorem map_asCut_stubPieces (d : Dialect) (name : String) (lines : List BodyLine) :
    (stubPieces d name lines).map asCut =
      d.accessPieces ++ .token (wordToken name) :: .token (.symbol .lparen) ::
        .token (.symbol .rparen) :: .gap [' '] :: .token (.symbol .lbrace) ::
          (bodyPieces d lines).map asCut := by
  have isPublic : wordToken "public" = .name "public" := if_neg (by decide)
  cases d <;> simp [stubPieces, asCut, Dialect.accessPieces, isPublic]

theorem allStand_stubPieces {d : Dialect} {name : String} {lines : List BodyLine}
    (word : IsWord name) (worded : ∀ line ∈ lines, line.Worded) :
    AllStand ((stubPieces d name lines).map asCut) [] := by
  have head : AllStand (.token (wordToken name) :: .token (.symbol .lparen) ::
      .token (.symbol .rparen) :: .gap [' '] :: .token (.symbol .lbrace) ::
      (bodyPieces d lines).map asCut) [] := by
    refine ⟨stands_word word ?_, stands_symbol nofun, stands_symbol nofun, stands_blank ?_,
      stands_symbol nofun, allStand_map_bodyPieces worded⟩
    · change isNamePart '(' = false
      decide
    · change isGapChar '{' = false
      decide
  rw [map_asCut_stubPieces]
  cases d with
  | groovy => exact head
  | java =>
    have isPublic : IsName "public" :=
      ⟨⟨'p', _, rfl, by decide, by decide⟩, by decide⟩
    refine ⟨stands_name isPublic ?_, stands_blank ?_, head⟩
    · change isNamePart ' ' = false
      decide
    · have begins := not_isGapChar_of_isWord word
      rw [← text_word name] at begins
      rw [List.append_nil]
      exact begins _

end Cuts

end CreatorSynth
