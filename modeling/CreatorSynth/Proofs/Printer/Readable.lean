import CreatorSynth.Proofs.Printer.Spelling
import CreatorSynth.Proofs.Token.Sewn

/-! Signatures of which every part is read as it is printed: names are words, types are made of
words, and the arguments of annotations are texts kept from a source. Those that a source spells are
among them. -/
namespace CreatorSynth
open Text

/-- A text to stand between parentheses, with parentheses balanced in it. -/
structure IsArguments (args : String) : Prop where
  raw : IsRaw args
  nested : openParens 0 (Piece.tokens (rawPieces args)) = some 0

structure Annotation.Readable (a : Annotation) : Prop where
  name : IsPath a.name
  args : ∀ args ∈ a.args, IsArguments args

structure Modifiers.Readable (m : Modifiers) : Prop where
  keywords : ∀ word ∈ m.keywords, isModifierKeyword word = true
  annotations : ∀ a ∈ m.annotations, a.Readable

/-- No modifier word begins the name, which would be read as one in front of a declaration. -/
def LeadsOn (name : String) : Prop :=
  ∀ s ∈ (segments name).head?, isModifierKeyword s = false

structure TypeParam.Readable (p : TypeParam) : Prop where
  name : IsWord p.name
  leads : isModifierKeyword p.name = false
  bounds : ∀ t ∈ p.bounds, t.Worded

structure Param.Readable (p : Param) : Prop where
  modifiers : p.modifiers.Readable
  type : p.type.Worded
  leads : LeadsOn p.type.name
  name : IsWord p.name

/-- What stands behind the modifiers of a method or constructor begins neither a modifier nor a
record, which the word for one in front of a name does. -/
def LeadsDeclaration (name : String) : Option TypeRef → Prop
  | none => isModifierKeyword name = false
  | some t => LeadsOn t.name ∧
      (t = .simple Keyword.recordWord.text → name = Keyword.recordWord.text)

/-- A method, or a constructor of the class, that has no documentation. -/
structure MethodDecl.Readable (className : String) (m : MethodDecl) : Prop where
  modifiers : m.modifiers.Readable
  typeParams : ∀ p ∈ m.typeParams, p.Readable
  returnType : ∀ t ∈ m.returnType, t.Worded
  name : IsWord m.name
  constructs : m.returnType = none → m.name = className ∧ IsName className
  leads : m.typeParams = [] → LeadsDeclaration m.name m.returnType
  params : ∀ p ∈ m.params, p.Readable
  throws : ∀ t ∈ m.throws, t.Worded
  doc : m.doc = none

/-- The texts of a source that the arguments of annotations keep. -/
def Annotation.raws (a : Annotation) : List (List Piece) :=
  (a.args.map rawPieces).toList

def Modifiers.raws (m : Modifiers) : List (List Piece) :=
  m.annotations.flatMap Annotation.raws

def Param.raws (p : Param) : List (List Piece) :=
  p.modifiers.raws

theorem isArguments_of_text {args : String} (proper : IsArgumentText args) : IsArguments args := by
  obtain ⟨located, tokens, nested⟩ := proper.tokens
  obtain ⟨pieces, whole, stand, rfl⟩ := Piece.exists_pieces_of_tokenize tokens
  have bare : ∀ piece ∈ pieces, piece.Bare := by
    intro piece member
    obtain ⟨more, stands⟩ := stand.of_mem member
    have inside : piece.text <:+: args.toList := whole ▸ Piece.infix_of_mem member
    rcases stands.cases with ⟨t, rfl, plain⟩ | ⟨g, rfl, blank⟩ | line | block
    · exact plain
    · exact blank
    · exact absurd (line.isInfix.trans inside) proper.lineComment
    · exact absurd (block.isInfix.trans inside) proper.blockComment
  have tipped : Tipped args.toList := by
    have solid := congrArg String.toList proper.trimmed
    rw [Text.trimmed, String.toList_ofList] at solid
    exact solid ▸ tipped_trim args.toList
  have same := rawPieces_of_whole whole stand
  have raw : Piece.Raw pieces := stand.raw bare (whole.symm ▸ tipped)
  refine ⟨⟨by rw [same, whole], same.symm ▸ raw⟩, ?_⟩
  rw [same, ← Piece.map_token_locate (fun s member => ?_) 0]
  · exact nested
  · cases bare _ member

theorem IsDotted.leadsOn {name : String} (dotted : IsDotted name) : LeadsOn name :=
  fun s first => (dotted s (List.mem_of_head? first)).2

theorem Annotation.Spelled.readable {a : Annotation} (spelled : a.Spelled) : a.Readable :=
  ⟨spelled.name.isPath, fun args given => isArguments_of_text (spelled.args args given)⟩

theorem Modifiers.Spelled.readable {m : Modifiers} (spelled : m.Spelled) : m.Readable :=
  ⟨spelled.keywords, fun a member => (spelled.annotations a member).readable⟩

theorem TypeParam.Spelled.readable {p : TypeParam} (spelled : p.Spelled) : p.Readable :=
  ⟨.inl spelled.name.isName, spelled.name.2, fun t member => (spelled.bounds t member).worded⟩

theorem TypeRef.Spelled.leadsOn : {t : TypeRef} → t.Spelled → LeadsOn t.name
  | ⟨name, _, _⟩, spelled =>
    (spelled name (by rw [TypeRef.names]; exact List.mem_cons_self)).leadsOn

theorem Param.Spelled.readable {p : Param} (spelled : p.Spelled) : p.Readable where
  modifiers := spelled.modifiers.readable
  type := spelled.type.worded
  leads := spelled.type.leadsOn
  name := .inl spelled.name.isName

theorem MethodDecl.Spelled.readable {className : String} {m : MethodDecl}
    (spelled : m.Spelled className) : m.Readable className where
  modifiers := spelled.modifiers.readable
  typeParams := fun p member => (spelled.typeParams p member).readable
  returnType := by
    rw [spelled.returnType]
    nofun
  name := spelled.name ▸ .inl spelled.identifier.isName
  constructs := fun _ => ⟨spelled.name, spelled.identifier.isName⟩
  leads := fun _ => by
    rw [spelled.returnType, LeadsDeclaration, spelled.name]
    exact spelled.identifier.2
  params := fun p member => (spelled.params p member).readable
  throws := fun t member => (spelled.throws t member).worded
  doc := spelled.doc

end CreatorSynth
