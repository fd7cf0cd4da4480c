import CreatorSynth.Decl.Basic
import CreatorSynth.Proofs.Token.Splice
import CreatorSynth.Proofs.Token.Words

/-! Constructors made of words and of annotation arguments that can be written in a source. -/
namespace CreatorSynth
open Text

/-- A name wherever it stands: neither a keyword nor a modifier word. -/
def IsIdentifier (s : String) : Prop :=
  LexesAsName s ∧ isModifierKeyword s = false

instance (s : String) : Decidable (IsIdentifier s) :=
  inferInstanceAs (Decidable (_ ∧ _))

theorem IsIdentifier.isName {s : String} (identifier : IsIdentifier s) : IsName s :=
  isName_of_lexesAsName identifier.1

/-- Identifiers with dots between them. -/
def IsDotted (name : String) : Prop :=
  ∀ s ∈ segments name, IsIdentifier s

instance (name : String) : Decidable (IsDotted name) :=
  inferInstanceAs (Decidable (∀ s ∈ segments name, IsIdentifier s))

theorem IsDotted.isPath {name : String} (dotted : IsDotted name) : IsPath name :=
  ⟨fun s first => .inl (dotted s (List.mem_of_head? first)).isName,
    fun s behind => (dotted s (List.mem_of_mem_tail behind)).isName⟩

/-- The number of parentheses open behind tokens, if none is closed that is not open. -/
def openParens : (depth : Nat) → List Token → Option Nat
  | depth, [] => some depth
  | depth, t :: ts =>
      if t = .symbol .lparen then openParens (depth + 1) ts
      else if t = .symbol .rparen then
        match depth with
        | 0 => none
        | depth + 1 => openParens depth ts
      else openParens depth ts

/-- A text to stand between the parentheses of an annotation. -/
structure IsArgumentText (args : String) : Prop where
  trimmed : trimmed args = args
  tokens : ∃ located, tokenize args = .ok located ∧
    openParens 0 (located.map (·.token)) = some 0
  lineComment : ¬ ['/', '/'] <:+: args.toList
  blockComment : ¬ ['/', '*'] <:+: args.toList

structure Annotation.Spelled (a : Annotation) : Prop where
  name : IsDotted a.name
  args : ∀ args ∈ a.args, IsArgumentText args

/-- No text block is left open in the arguments. -/
def Annotation.Closed (a : Annotation) : Prop :=
  ∀ args ∈ a.args, ∃ pieces, Piece.all args.toList = .ok pieces ∧ Piece.Shut pieces

/-- No text block ends in the arguments. -/
def Annotation.ClosesNone (a : Annotation) : Prop :=
  ∀ args ∈ a.args, NoTriple args.toList

theorem isName_of_isModifierKeyword {word : String} (known : isModifierKeyword word = true) :
    IsName word := by
  have all : ∀ word ∈ modifierOrder, LexesAsName word := by decide
  exact isName_of_lexesAsName (all word (List.contains_iff_mem.mp known))

structure Modifiers.Spelled (m : Modifiers) : Prop where
  keywords : ∀ word ∈ m.keywords, isModifierKeyword word = true
  annotations : ∀ a ∈ m.annotations, a.Spelled

def TypeRef.Spelled (t : TypeRef) : Prop :=
  ∀ name ∈ t.names, IsDotted name

theorem TypeRef.Spelled.worded {t : TypeRef} (spelled : t.Spelled) : t.Worded :=
  fun name member => (spelled name member).isPath

structure TypeParam.Spelled (p : TypeParam) : Prop where
  name : IsIdentifier p.name
  bounds : ∀ t ∈ p.bounds, t.Spelled

structure Param.Spelled (p : Param) : Prop where
  modifiers : p.modifiers.Spelled
  type : p.type.Spelled
  name : IsIdentifier p.name

/-- A call of a constructor with names for arguments, or an assignment of one name to another. -/
def Statement.Spelled : Statement → Prop
  | superCall args _ | thisCall args _ => ∀ arg ∈ args, IsIdentifier arg
  | assign _ field value _ => IsIdentifier field ∧ IsIdentifier value
  | other _ _ => False

/-- A constructor of the class, without documentation. -/
structure MethodDecl.Spelled (className : String) (m : MethodDecl) : Prop where
  name : m.name = className
  identifier : IsIdentifier className
  returnType : m.returnType = none
  doc : m.doc = none
  modifiers : m.modifiers.Spelled
  typeParams : ∀ p ∈ m.typeParams, p.Spelled
  params : ∀ p ∈ m.params, p.Spelled
  throws : ∀ t ∈ m.throws, t.Spelled
  body : ∃ body, m.body = some body ∧ ∀ s ∈ body.statements, s.Spelled

/-- The annotations of a declaration and its parameters, in the order they are printed in. -/
def MethodDecl.annotations (m : MethodDecl) : List Annotation :=
  m.modifiers.annotations ++ m.params.flatMap (·.modifiers.annotations)

/-- A text block left open in the arguments of an annotation is not closed in those of a later
one. -/
def MethodDecl.Closed (m : MethodDecl) : Prop :=
  m.annotations.Pairwise fun a b => a.Closed ∨ b.ClosesNone

section Decisions

/-- Whether a text is accepted by the lexer with such pieces or tokens. -/
instance decidableExistsOk {ε α : Type} (r : Except ε α) (P : α → Prop) [DecidablePred P] :
    Decidable (∃ a, r = .ok a ∧ P a) :=
  match r with
  | .ok a => decidable_of_iff (P a) ⟨fun holds => ⟨a, rfl, holds⟩, fun ⟨_, same, holds⟩ => by
      cases same
      exact holds⟩
  | .error _ => .isFalse nofun

instance (args : String) : Decidable (IsArgumentText args) :=
  decidable_of_iff (_ ∧ _ ∧ _ ∧ _)
    ⟨fun ⟨trimmed, tokens, line, block⟩ => ⟨trimmed, tokens, line, block⟩,
      fun proper => ⟨proper.trimmed, proper.tokens, proper.lineComment, proper.blockComment⟩⟩

instance (a : Annotation) : Decidable a.Spelled :=
  decidable_of_iff (_ ∧ _) ⟨fun ⟨name, args⟩ => ⟨name, args⟩, fun spelled =>
    ⟨spelled.name, spelled.args⟩⟩

instance (a : Annotation) : Decidable a.Closed :=
  inferInstanceAs (Decidable (∀ args ∈ a.args, _))

instance (a : Annotation) : Decidable a.ClosesNone :=
  inferInstanceAs (Decidable (∀ args ∈ a.args, _))

instance (m : Modifiers) : Decidable m.Spelled :=
  decidable_of_iff (_ ∧ _) ⟨fun ⟨keywords, annotations⟩ => ⟨keywords, annotations⟩, fun spelled =>
    ⟨spelled.keywords, spelled.annotations⟩⟩

instance (t : TypeRef) : Decidable t.Spelled :=
  inferInstanceAs (Decidable (∀ name ∈ t.names, _))

instance (p : TypeParam) : Decidable p.Spelled :=
  decidable_of_iff (_ ∧ _) ⟨fun ⟨name, bounds⟩ => ⟨name, bounds⟩, fun spelled =>
    ⟨spelled.name, spelled.bounds⟩⟩

instance (p : Param) : Decidable p.Spelled :=
  decidable_of_iff (_ ∧ _ ∧ _) ⟨fun ⟨modifiers, type, name⟩ => ⟨modifiers, type, name⟩,
    fun spelled => ⟨spelled.modifiers, spelled.type, spelled.name⟩⟩

instance : (s : Statement) → Decidable s.Spelled
  | .superCall args _ | .thisCall args _ =>
    inferInstanceAs (Decidable (∀ arg ∈ args, IsIdentifier arg))
  | .assign _ field value _ => inferInstanceAs (Decidable (IsIdentifier field ∧ IsIdentifier value))
  | .other _ _ => .isFalse id

instance (className : String) (m : MethodDecl) : Decidable (m.Spelled className) :=
  decidable_of_iff
    (_ ∧ _ ∧ _ ∧ _ ∧ _ ∧ _ ∧ _ ∧ _ ∧ ∃ body ∈ m.body, ∀ s ∈ body.statements, s.Spelled)
    ⟨fun ⟨name, identifier, returnType, doc, modifiers, typeParams, params, throws, body⟩ =>
        ⟨name, identifier, returnType, doc, modifiers, typeParams, params, throws, body⟩,
      fun spelled => ⟨spelled.name, spelled.identifier, spelled.returnType, spelled.doc,
        spelled.modifiers, spelled.typeParams, spelled.params, spelled.throws, spelled.body⟩⟩

instance (m : MethodDecl) : Decidable m.Closed :=
  inferInstanceAs (Decidable (m.annotations.Pairwise _))

end Decisions

namespace Piece

theorem Stands.cases {piece : Piece} {rest : List Char} (stands : piece.Stands rest) :
    (∃ t, piece = token t ∧ t.isDoc = false) ∨ (∃ g, piece = gap g ∧ g.all isGapChar = true) ∨
      ['/', '/'] <+: piece.text ∨ ['/', '*'] <+: piece.text := by
  have isToken {t : Token} {cs : List Char} (plain : t.isDoc = false)
      (same : some (token t, cs) = some (piece, rest)) :
      ∃ t, piece = token t ∧ t.isDoc = false :=
    ⟨t, (Prod.mk.inj (Option.some.inj same)).1.symm, plain⟩
  obtain ⟨c, cs, shape⟩ := List.exists_cons_of_ne_nil stands.text_ne_nil
  unfold Stands at stands
  rw [shape, List.cons_append] at stands
  simp only [next?] at stands
  split at stands
  · rename_i blank
    obtain ⟨rfl, _⟩ := Prod.mk.inj (Option.some.inj stands)
    refine .inr (.inl ⟨_, rfl, ?_⟩)
    simp only [Cut.cons, Cut.spanning, List.all_cons, blank, Bool.true_and]
    exact List.all_takeWhile
  split at stands
  · unfold ofWord at stands
    split at stands <;> exact .inl (isToken rfl stands)
  split at stands
  · exact .inl (isToken rfl stands)
  split at stands
  · rename_i slash
    have found := Option.some.inj stands
    unfold afterSlash at found
    split at found
    · obtain ⟨rfl, _⟩ := Prod.mk.inj found
      exact .inr (.inr (.inl ⟨_, rfl⟩))
    · split at found
      · obtain ⟨rfl, _⟩ := Prod.mk.inj found
        rw [text_ofComment]
        exact .inr (.inr (.inr ⟨_, rfl⟩))
      · exact .inl (isToken rfl (congrArg some found))
    · exact .inl (isToken rfl (congrArg some found))
  split at stands
  · unfold afterDot at stands
    split at stands <;> exact .inl (isToken rfl stands)
  split at stands
  · obtain ⟨_, _, same⟩ := Option.map_eq_some_iff.mp stands
    exact .inl (isToken rfl (congrArg some same))
  split at stands
  · obtain ⟨_, _, same⟩ := Option.map_eq_some_iff.mp stands
    exact .inl (isToken rfl (congrArg some same))
  split at stands
  · exact .inl (isToken rfl stands)
  split at stands
  · exact .inl (isToken rfl stands)
  · cases stands

theorem infix_of_mem {pieces : List Piece} {piece : Piece} (member : piece ∈ pieces) :
    piece.text <:+: pieces.flatMap text := by
  obtain ⟨front, back, rfl⟩ := List.append_of_mem member
  exact ⟨front.flatMap text, back.flatMap text, by simp⟩

theorem map_token_locate {pieces : List Piece} (plain : ∀ s, .token (.doc s) ∉ pieces)
    (start : Nat) : (locate start pieces).map (·.token) = tokens pieces := by
  induction pieces generalizing start with
  | nil => rfl
  | cons piece pieces ih =>
    have others := ih fun s member => plain s (List.mem_cons_of_mem _ member)
    cases piece with
    | gap g => exact others _
    | token t =>
      have notDoc : t.isDoc = false := by
        cases t with
        | doc s => exact absurd List.mem_cons_self (plain s)
        | _ => rfl
      rw [locate, List.map_cons, others, tokens_token _ notDoc]

end Piece

end CreatorSynth
