import CreatorSynth.Proofs.Parser.Kept
import CreatorSynth.Proofs.Printer.Members

/-! Bodies of Java methods whose statements keep texts of a source. Printed, they are read again as
they were, but for a statement that goes on behind a block in front of it: the two are read as one,
whose text is that of both. -/
namespace CreatorSynth
open Text CreatorSynth.Parser

namespace Statement

/-- What is kept of the statement is read again where it is printed. -/
def Readable : Statement → Prop
  | superCall args _ | thisCall args _ => args ≠ [""] ∧ ∀ a ∈ args, IsArgument a
  | assign _ field value _ => IsName field ∧ IsExpression value ∧
      (Piece.tokens (rawPieces value)).head? ≠ some (.symbol .equals)
  | other text _ => IsStatement text

/-- The texts of a source that the statement keeps. -/
def raws : Statement → List (List Piece)
  | superCall args _ | thisCall args _ => args.map rawPieces
  | assign _ _ value _ => [rawPieces value]
  | other text _ => [rawPieces text]

/-- A call with its terminator. -/
def callTextPieces (word : Keyword) (args : List String) : List Piece :=
  .token (.keyword word) :: .token (.symbol .lparen) ::
    (separatedBy commaPieces (args.map rawPieces) ++
      [.token (.symbol .rparen), .token (.symbol .semicolon)])

/-- The name of a field and what is assigned to it, without a terminator. -/
def assignPieces (field value : String) : List Piece :=
  .token (.name field) :: .gap [' '] :: .token (.symbol .equals) :: .gap [' '] :: rawPieces value

/-- A statement as it is printed in Java. -/
def textPieces : Statement → List Piece
  | superCall args _ => callTextPieces .superWord args
  | thisCall args _ => callTextPieces .thisWord args
  | assign qualified field value _ =>
      (if qualified then [.token (.keyword .thisWord), .token (.symbol .dot)] else []) ++
        (assignPieces field value ++ [.token (.symbol .semicolon)])
  | other text _ => rawPieces text ++
      if text.toList.getLast? = some '}' then [] else [.token (.symbol .semicolon)]

/-- A statement on a line of its own. -/
def lineOf (s : Statement) : List Piece :=
  .gap ('\n' :: indentUnit.toList) :: s.textPieces

end Statement

/-- The lines of statements. -/
def linesText (statements : List Statement) : String :=
  String.join (statements.map fun s => indentUnit ++ s.text .java ++ "\n")

theorem toList_linesText_cons (s : Statement) (others : List Statement) :
    (linesText (s :: others)).toList =
      indentUnit.toList ++ (s.text .java).toList ++ '\n' :: (linesText others).toList := by
  simp [linesText]

/-- Statements in braces, as they are printed in Java. -/
def Block.textPieces (b : Block) : List Piece :=
  .gap [' '] :: .token (.symbol .lbrace) ::
    (b.statements.flatMap Statement.lineOf ++ [.gap ['\n'], .token (.symbol .rbrace)])

/-- The body as it is printed in Java, or what stands for none. -/
def MethodDecl.bodyPieces (m : MethodDecl) : List Piece :=
  m.body.elim [.token (.symbol .semicolon)] Block.textPieces

/-- The texts of a source that a declaration keeps, one behind another. -/
def MethodDecl.raws (m : MethodDecl) : List (List Piece) :=
  m.modifiers.raws ++ (m.params.flatMap Param.raws ++ m.statements.flatMap Statement.raws)

section Text

theorem flatMap_text_arguments {args : List String} (known : ∀ a ∈ args, IsArgument a) :
    (separatedBy commaPieces (args.map rawPieces)).flatMap Piece.text =
      (", ".intercalate args).toList := by
  have texts : (separatedBy commaPieces (args.map rawPieces)).flatMap Piece.text =
      (", ".intercalate (args.map id)).toList :=
    flatMap_text_separatedBy rfl fun a member => (known a member).1.whole
  rwa [List.map_id] at texts

theorem Statement.flatMap_text_textPieces {s : Statement} (readable : s.Readable) :
    s.textPieces.flatMap Piece.text = (s.text .java).toList := by
  cases s with
  | superCall args span | thisCall args span =>
    simp [textPieces, callTextPieces, Statement.text, flatMap_text_arguments readable.2,
      Piece.text, Token.text, Keyword.text, Symbol.text, Dialect.terminator]
  | assign qualified field value span =>
    have whole := readable.2.1.1.whole
    cases qualified <;> simp [textPieces, assignPieces, Statement.text, whole, Piece.text, Token.text,
      Keyword.text, Symbol.text, Dialect.terminator]
  | other text span =>
    have whole := readable.raw.whole
    rw [textPieces, Statement.text]
    split <;> simp [whole, Piece.text, Token.text, Symbol.text, Dialect.terminator]

theorem flatMap_text_lines {statements : List Statement} (readable : ∀ s ∈ statements, s.Readable) :
    '\n' :: (linesText statements).toList =
      (statements.flatMap Statement.lineOf).flatMap Piece.text ++ ['\n'] := by
  induction statements with
  | nil => rfl
  | cons s others ih =>
    obtain ⟨here, readable⟩ := List.forall_mem_cons.mp readable
    rw [toList_linesText_cons, ih readable]
    simp [Statement.lineOf, Statement.flatMap_text_textPieces here, Piece.text]

theorem Block.flatMap_text_textPieces {b : Block} (readable : ∀ s ∈ b.statements, s.Readable) :
    b.textPieces.flatMap Piece.text = (b.text .java indentUnit).toList := by
  have lines := congrArg (· ++ ['}']) (flatMap_text_lines readable)
  rw [linesText] at lines
  simpa [textPieces, Block.text, Piece.text, Token.text, Symbol.text] using lines.symm

theorem MethodDecl.flatMap_text_bodyPieces {className : String} {m : MethodDecl}
    (readable : m.Readable className) (statements : ∀ s ∈ m.statements, s.Readable) :
    (m.piecesWith m.bodyPieces).flatMap Piece.text = (m.text .java).toList := by
  have whole := @MethodDecl.flatMap_text_piecesWith className m readable .java m.bodyPieces
  rw [MethodDecl.printed_java] at whole
  refine whole ?_
  rw [MethodDecl.statements] at statements
  rw [MethodDecl.bodyPieces]
  cases given : m.body with
  | none => rfl
  | some b =>
    rw [given] at statements
    exact Block.flatMap_text_textPieces statements

end Text

namespace Piece

variable {rest : List Char}

theorem seam_symbol {s : Symbol} (listed : s ∈ [Symbol.semicolon, .comma, .rparen])
    (pieces : List Piece) : Seam ((token (.symbol s) :: pieces).flatMap text ++ rest) := by
  intro c same
  simp only [List.mem_cons, List.not_mem_nil, or_false] at listed
  rcases listed with rfl | rfl | rfl <;> cases same <;> decide

theorem seam_line (pieces : List Piece) (line : List Char) :
    Seam ((gap ('\n' :: line) :: pieces).flatMap text ++ rest) := by
  intro c same
  cases same
  decide

theorem sewn_arguments {args : List String} {more : List Piece} (known : ∀ a ∈ args, IsArgument a)
    (behind : Sewn rest (token (.symbol .rparen) :: more) []) :
    Sewn rest (separatedBy commaPieces (args.map rawPieces) ++ token (.symbol .rparen) :: more)
      (args.map rawPieces) := by
  have each (a : String) (member : a ∈ args) (rest : List Char) (seam : Seam rest) :
      Sewn rest (rawPieces a) [rawPieces a] := by
    have alone : Sewn rest (rawPieces a ++ []) [rawPieces a] :=
      .raw (known a member).1.raw seam .nil
    rwa [List.append_nil] at alone
  have items : Sewn ((token (.symbol .rparen) :: more).flatMap text ++ rest)
      (separatedBy commaPieces (args.map rawPieces)) (args.flatMap fun a => [rawPieces a]) :=
    .separatedBy Seam (seam_symbol (s := .rparen) (by simp) more) each (fun _ _ _ => .comma)
      fun _ _ => seam_symbol (s := .comma) (by simp) _
  rw [← List.map_eq_flatMap] at items
  exact items.followed behind

theorem sewn_call {word : Keyword} {args : List String} (known : ∀ a ∈ args, IsArgument a) :
    Sewn rest (Statement.callTextPieces word args) (args.map rawPieces) :=
  .keyword (breaks_symbol .lparen _ _)
    (.symbol nofun (sewn_arguments known (.symbol nofun (.symbol nofun .nil))))

theorem sewn_assign {field value : String} (name : IsName field) (known : IsExpression value) :
    Sewn rest (Statement.assignPieces field value ++ [token (.symbol .semicolon)])
      [rawPieces value] :=
  .name name (breaks_space _ _) (.space (.symbol nofun (.space
    (.raw known.1.raw (seam_symbol (s := .semicolon) (by simp) []) (.symbol nofun .nil)))))

theorem sewn_textPieces {s : Statement} (readable : s.Readable) (seam : Seam rest) :
    Sewn rest s.textPieces s.raws := by
  cases s with
  | superCall args span | thisCall args span => exact sewn_call readable.2
  | assign qualified field value span =>
    have assigned : Sewn rest (Statement.assignPieces field value ++ [token (.symbol .semicolon)])
        [rawPieces value] := sewn_assign readable.1 readable.2.1
    cases qualified with
    | false => exact assigned
    | true =>
      have dotted : Sewn rest (token (.symbol .dot) ::
          (Statement.assignPieces field value ++ [token (.symbol .semicolon)])) [rawPieces value] := by
        refine .plain (plain_symbol .dot) (.inl (stands_symbol fun _ => ?_)) assigned
        rw [Statement.assignPieces, List.cons_append, List.flatMap_cons, List.append_assoc]
        exact not_dots_of_isWord (.inl readable.1) _
      exact .keyword (breaks_symbol .dot _ _) dotted
  | other text span =>
    refine .raw readable.raw.raw ?_ ?_ <;> split
    · exact seam
    · exact seam_symbol (s := .semicolon) (by simp) []
    · exact .nil
    · exact .symbol nofun .nil

theorem sewn_lines {statements : List Statement} (readable : ∀ s ∈ statements, s.Readable)
    (seam : Seam rest) :
    Sewn rest (statements.flatMap Statement.lineOf) (statements.flatMap Statement.raws) := by
  induction statements with
  | nil => exact .nil
  | cons s others ih =>
    obtain ⟨here, readable⟩ := List.forall_mem_cons.mp readable
    have next : Seam ((others.flatMap Statement.lineOf).flatMap text ++ rest) := by
      cases others with
      | nil => exact seam
      | cons s others => exact seam_line _ _
    exact .gap (by decide) ((sewn_textPieces here next).append (ih readable))

theorem sewn_block {b : Block} (readable : ∀ s ∈ b.statements, s.Readable) :
    Sewn rest b.textPieces (b.statements.flatMap Statement.raws) :=
  .space (.symbol nofun ((sewn_lines readable (seam_line _ [])).followed
    (.gap (by decide) (.symbol nofun .nil))))

theorem sewn_bodyPieces {className : String} {m : MethodDecl} (readable : m.Readable className)
    (statements : ∀ s ∈ m.statements, s.Readable) : Sewn rest (m.piecesWith m.bodyPieces) m.raws := by
  rw [MethodDecl.raws]
  rw [MethodDecl.statements] at statements ⊢
  rw [MethodDecl.bodyPieces]
  cases given : m.body with
  | none =>
    have ends : Sewn rest [token (.symbol .semicolon)] [] := .symbol (by simp) .nil
    exact sewn_piecesWith readable (breaks_symbol .semicolon _ _) ends
  | some b =>
    rw [given] at statements
    exact sewn_piecesWith readable (breaks_space _ _) (sewn_block statements)

end Piece

/-- In front of the end of a text the pieces of a declaration are cut off there. -/
theorem MethodDecl.tokenize_java {className : String} {m : MethodDecl}
    (readable : m.Readable className) (statements : ∀ s ∈ m.statements, s.Readable)
    (unclosed : Piece.Unclosed m.raws) :
    tokenize (m.text .java) = .ok (Piece.locate 0 (m.piecesWith m.bodyPieces)) := by
  have cuts := Piece.tokenize_of_fit ((Piece.sewn_bodyPieces readable statements).fit_nil unclosed)
  rwa [MethodDecl.flatMap_text_bodyPieces readable statements, String.ofList_toList] at cuts

end CreatorSynth
