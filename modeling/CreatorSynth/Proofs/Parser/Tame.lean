import CreatorSynth.Proofs.Parser.Progress

/-! Parsers that pass over no text of unknown length. What they answer in Java they answer in
Groovy, and they leave documentation to the declarations behind them, as the others do that are made
for members. -/
namespace CreatorSynth

/-- The same source read in Groovy. -/
def Source.inGroovy (src : Source) : Source :=
  { src with dialect := .groovy }

namespace Parser

/-- A parser that leaves documentation to what follows. -/
class KeepsDocs {α : Type} (p : Parser α) : Prop where
  floor : ∀ {src c a c'}, p.on src c = .ok (a, c') → c'.docFloor = c.docFloor

/-- A parser that answers in Groovy what it answers in Java, and leaves documentation to what
follows. -/
class Tame {α : Type} (p : Parser α) : Prop extends KeepsDocs p where
  groovy : ∀ {src c r}, src.dialect = .java → p.on src c = .ok r → p.on src.inGroovy c = .ok r

section Rules

variable {α β : Type} {p q : Parser α} {f : α → Parser β}

instance KeepsDocs.bind [KeepsDocs p] [more : ∀ a, KeepsDocs (f a)] : KeepsDocs (p >>= f) where
  floor run := by
    obtain ⟨a, mid, first, second⟩ := on_bind_eq_ok.mp run
    exact ((more a).floor second).trans (KeepsDocs.floor first)

instance KeepsDocs.ite {condition : Prop} [Decidable condition] [KeepsDocs p] [KeepsDocs q] :
    KeepsDocs (if condition then p else q) := by
  split <;> assumption

instance Tame.bind [Tame p] [more : ∀ a, Tame (f a)] : Tame (p >>= f) where
  groovy java run := by
    obtain ⟨a, mid, first, second⟩ := on_bind_eq_ok.mp run
    rw [on_bind_of_ok (Tame.groovy java first)]
    exact (more a).groovy java second

instance Tame.ite {condition : Prop} [Decidable condition] [Tame p] [Tame q] :
    Tame (if condition then p else q) := by
  split <;> assumption

instance Tame.pure (a : α) : Tame (Pure.pure a : Parser α) where
  floor run := by
    cases run
    rfl
  groovy _ run := run

instance Tame.throw (e : ParseError) : Tame (MonadExcept.throw e : Parser α) where
  floor := nofun
  groovy := nofun

theorem Tame.of_looking {look : Source → Cursor → α}
    (looks : ∀ src c, p.on src c = .ok (look src c, c))
    (same : ∀ src c, look src.inGroovy c = look src c) : Tame p where
  floor run := by
    rw [looks] at run
    cases run
    rfl
  groovy _ run := by rwa [looks, same, ← looks]

instance : Tame (get : Parser Cursor) :=
  .of_looking (fun _ _ => on_get) fun _ _ => rfl

end Rules

section Primitives

instance (n : Nat) : Tame (upcoming n) :=
  .of_looking (fun _ _ => on_upcoming n) fun _ _ => rfl

instance : Tame peek :=
  .of_looking (fun _ _ => on_peek) fun _ _ => rfl

instance : Tame nextStart :=
  .of_looking (fun _ _ => on_nextStart) fun _ _ => rfl

instance : Tame atEnd :=
  .of_looking (fun _ _ => on_atEnd) fun _ _ => rfl

instance : Tame lastStop :=
  inferInstanceAs (Tame (do return (← get).lastStop))

instance (start : Nat) : Tame (spanFrom start) :=
  .of_looking (fun _ _ => on_spanFrom start) fun _ _ => rfl

instance (offset : Nat) : Tame (docBefore offset) :=
  .of_looking (fun _ _ => on_docBefore offset) fun _ _ => rfl

instance (expected : Expected) : Tame (mismatch expected) :=
  .of_looking (fun _ _ => on_mismatch expected) fun _ _ => rfl

instance (s : Symbol) : Tame (sees s) :=
  .of_looking (fun _ _ => on_sees s) fun _ _ => rfl

instance (start stop : Nat) : Tame (cut start stop) where
  floor run := by
    rw [on_cut] at run
    split at run <;> cases run
    rfl
  groovy _ run := by
    rw [on_cut] at run ⊢
    exact run

instance : Tame expectMore := by
  unfold expectMore
  infer_instance

theorem Cursor.docFloor_next (c : Cursor) : c.next.docFloor = c.docFloor := by
  rcases c with ⟨_ | ⟨t, rest⟩, last, floor, classes⟩ <;> rfl

instance : Tame advance where
  floor {src c a c'} run := by
    rw [on_advance] at run
    cases run
    exact Cursor.docFloor_next c
  groovy _ run := by
    rw [on_advance] at run ⊢
    exact run

instance (t : Token) : Tame (acceptToken t) := by
  unfold acceptToken
  infer_instance

instance (s : Symbol) : Tame (accept s) :=
  inferInstanceAs (Tame (acceptToken _))

instance (word : Keyword) : Tame (acceptKeyword word) :=
  inferInstanceAs (Tame (acceptToken _))

instance (word : String) : Tame (acceptWord word) :=
  inferInstanceAs (Tame (acceptToken _))

instance (s : Symbol) : Tame (expect s) := by
  unfold expect
  infer_instance

instance (word : Keyword) : Tame (expectKeyword word) := by
  unfold expectKeyword
  infer_instance

instance : Tame identifier := by
  refine @Tame.bind _ _ _ _ _ fun t => ?_
  split <;> infer_instance

/-- A semicolon is taken in Groovy too. -/
instance : Tame endDeclaration where
  floor {src c a c'} run := by
    rw [on_endDeclaration] at run
    split at run
    · exact KeepsDocs.floor run
    · cases run
      split
      · exact Cursor.docFloor_next c
      · rfl
  groovy {src c r} java run := by
    have ended : (expect .semicolon).on src c = .ok r := by
      rwa [on_endDeclaration, java] at run
    rw [on_expect] at ended
    split at ended
    · rename_i head
      cases ended
      rw [on_endDeclaration]
      simp only [Source.inGroovy, if_pos head]
    · cases ended

end Primitives

section Loops

variable {α : Type}

instance KeepsDocs.repeatWithin (step : Parser (Option α)) [KeepsDocs step] (bound : Nat) :
    KeepsDocs (repeatWithin step bound) := by
  induction bound with
  | zero => exact ⟨nofun⟩
  | succ bound ih =>
    refine @KeepsDocs.bind _ _ _ _ _ fun found => ?_
    split <;> infer_instance

instance KeepsDocs.many (step : Parser (Option α)) [KeepsDocs step] : KeepsDocs (many step) := by
  unfold Parser.many
  infer_instance

instance Tame.repeatWithin (step : Parser (Option α)) [Tame step] (bound : Nat) :
    Tame (repeatWithin step bound) := by
  induction bound with
  | zero => exact Tame.throw _
  | succ bound ih =>
    refine @Tame.bind _ _ _ _ _ fun found => ?_
    split <;> infer_instance

instance Tame.many (step : Parser (Option α)) [Tame step] : Tame (many step) := by
  unfold Parser.many
  infer_instance

instance Tame.separated (s : Symbol) (item : Parser α) [Tame item] : Tame (separated s item) := by
  unfold Parser.separated
  infer_instance

end Loops

section Groups

instance (last : Nat) (rest : List Located) : Tame (moveTo last rest) where
  floor run := by
    cases run
    rfl
  groovy _ run := run

instance {α : Type} : Tame (do throw (.unexpectedEnd (← read).stop) : Parser α) where
  floor := nofun
  groovy := nofun

instance (opening closing : Symbol) : Tame (group opening closing) := by
  unfold group
  refine @Tame.bind _ _ _ _ _ fun _ => @Tame.bind _ _ _ _ _ fun _ =>
    @Tame.bind _ _ _ _ _ fun c => ?_
  split <;> infer_instance

instance (opening closing : Symbol) : Tame (groupText opening closing) := by
  unfold groupText
  infer_instance

instance : Tame argumentText? := by
  unfold argumentText?
  infer_instance

instance (bounds : List (Nat × Nat)) : Tame (bounds.mapM fun bound => cut bound.1 bound.2) := by
  induction bounds with
  | nil => exact Tame.pure _
  | cons bound bounds ih =>
    rw [List.mapM_cons]
    infer_instance

instance : Tame callArgs := by
  unfold callArgs
  refine @Tame.bind _ _ _ _ _ fun _ => @Tame.bind _ _ _ _ _ fun _ =>
    @Tame.bind _ _ _ _ _ fun c => ?_
  split <;> infer_instance

theorem KeepsDocs.passing {α β : Type} {f : Source → Cursor → Except ParseError α}
    {g : α → Source.Passed} {k : Nat → α → Parser β} [keeps : ∀ start a, KeepsDocs (k start a)] :
    KeepsDocs (do
      let start ← nextStart
      let src ← read
      let c ← get
      let a ← liftM (f src c)
      resume (g a)
      k start a) where
  floor run := by
    rw [on_bind_of_ok on_nextStart] at run
    obtain ⟨a, _, behind⟩ := of_passing run
    have kept := (keeps _ a).floor behind
    exact kept

instance : KeepsDocs expression :=
  .passing (f := fun src c => src.passExpression 0 none c.rest) (g := id)

instance : KeepsDocs initializer :=
  .passing (f := fun src c => src.passInitializer 0 0 none none c.rest) (g := id)

instance : KeepsDocs rawStatement :=
  .passing (f := fun src c => src.passStatement 0 none c.rest) (g := Prod.snd)

end Groups

section Types

instance : Tame dotName := by
  refine @Tame.bind _ _ _ _ _ fun next => ?_
  split <;> infer_instance

instance : Tame qualifiedName := by
  unfold qualifiedName
  infer_instance

instance : Tame annotation := by
  unfold annotation
  infer_instance

instance (next : List Token) : Tame (modifierFrom next) := by
  unfold modifierFrom
  split <;> infer_instance

instance : Tame modifier := by
  unfold modifier
  infer_instance

instance : Tame modifiers := by
  unfold modifiers
  infer_instance

instance : Tame dimension := by
  unfold dimension
  infer_instance

instance : Tame dimensions := by
  unfold dimensions
  infer_instance

variable (type : Parser TypeRef) [Tame type]

instance : Tame (typeArg type) := by
  unfold typeArg
  infer_instance

instance : Tame (typeArgs? type) := by
  unfold typeArgs?
  infer_instance

instance : Tame (typeSegment type) := by
  refine @Tame.bind _ _ _ _ _ fun next => ?_
  split <;> infer_instance

instance : Tame (typeRefOver type) := by
  unfold typeRefOver
  infer_instance

instance (depth : Nat) : Tame (typeRefWithin depth) := by
  induction depth with
  | zero => exact Tame.throw _
  | succ depth ih => exact inferInstanceAs (Tame (typeRefOver (typeRefWithin depth)))

instance : Tame typeRef := by
  unfold typeRef
  infer_instance

instance : Tame bounds := by
  unfold bounds
  infer_instance

instance : Tame typeParam := by
  unfold typeParam
  infer_instance

instance : Tame typeParams := by
  unfold typeParams
  infer_instance

end Types

section Methods

instance : Tame param? := by
  unfold param?
  infer_instance

instance : Tame params := by
  unfold params
  infer_instance

instance : Tame throwsClause := by
  unfold throwsClause
  infer_instance

instance : Tame callStatement := by
  unfold callStatement
  infer_instance

variable (modifiers : Modifiers) (typeParams : List TypeParam) (returnType : Option TypeRef)
  (type : TypeRef) (className name : String) (start : Nat) (doc : Option String)

instance (qualified : Bool) : KeepsDocs (assignment qualified start) := by
  unfold assignment
  infer_instance

instance (head : StatementHead) : KeepsDocs (statementFrom start head) := by
  unfold statementFrom
  split <;> infer_instance

instance : KeepsDocs statement := by
  unfold statement
  infer_instance

instance : KeepsDocs blockStep := by
  unfold blockStep
  infer_instance

instance : KeepsDocs block := by
  unfold block
  infer_instance

instance : KeepsDocs skipDefault := by
  unfold skipDefault
  infer_instance

instance : KeepsDocs body? := by
  unfold body?
  infer_instance

instance : KeepsDocs (methodRest modifiers typeParams returnType name start doc) := by
  unfold methodRest
  infer_instance

instance : KeepsDocs initializer? := by
  unfold initializer?
  infer_instance

instance : KeepsDocs (declarator name) := by
  unfold declarator
  infer_instance

instance : KeepsDocs nextDeclarator := by
  unfold nextDeclarator
  infer_instance

instance : KeepsDocs (fieldRest modifiers type name start doc) := by
  unfold fieldRest
  infer_instance

instance : KeepsDocs (compactConstructor modifiers typeParams start doc) := by
  unfold compactConstructor
  infer_instance

instance : KeepsDocs (methodOrFields modifiers typeParams start doc) := by
  unfold methodOrFields
  infer_instance

instance : KeepsDocs (typedMember className modifiers start doc) := by
  unfold typedMember
  infer_instance

end Methods

section Classes

instance : Tame skipConstantBody := by
  unfold skipConstantBody
  infer_instance

instance : Tame enumConstant := by
  unfold enumConstant
  infer_instance

instance : Tame endConstants := by
  unfold endConstants
  infer_instance

instance (bound : Nat) : Tame (enumConstantsWithin bound) := by
  induction bound with
  | zero => exact Tame.throw _
  | succ bound ih =>
    unfold enumConstantsWithin
    infer_instance

instance : Tame classKind := by
  refine @Tame.bind _ _ _ _ _ fun next => ?_
  split <;> infer_instance

variable (kind : ClassKind) (start : Nat)

instance : Tame (extendsClause kind) := by
  unfold extendsClause
  infer_instance

instance : Tame implementsClause := by
  unfold implementsClause
  infer_instance

instance : Tame skipPermits := by
  unfold skipPermits
  infer_instance

instance : Tame (supertypes kind) := by
  unfold supertypes
  infer_instance

instance : Tame (recordComponents kind) := by
  unfold recordComponents
  infer_instance

instance : Tame classHead := by
  unfold classHead
  infer_instance

instance : Tame staticWord := by
  unfold staticWord
  infer_instance

instance (bound : Nat) : Tame (importTailWithin bound) := by
  induction bound with
  | zero => exact Tame.throw _
  | succ bound ih =>
    unfold importTailWithin
    infer_instance

instance : Tame importTail := by
  unfold importTail
  infer_instance

instance : Tame (importDecl start) := by
  unfold importDecl
  infer_instance

end Classes

end Parser

end CreatorSynth
