import CreatorSynth.Proofs.Parser.Enclosure.Methods

/-! Constants, heads of classes, members and nested classes are read alike in front of the brace. -/
namespace CreatorSynth
open Text

namespace Parser

theorem beginsClass_rbrace (t : Token) : beginsClass [t, .symbol .rbrace] = beginsClass [t] := by
  cases t with
  | keyword word => cases word <;> rfl
  | symbol s => cases s <;> rfl
  | _ => rfl

def ClassHead.shift (n : Nat) (h : ClassHead) : ClassHead :=
  { h with recordComponents := h.recordComponents.map (Param.shift n) }

namespace Enclosure

variable {E : Enclosure}

section Constants

instance : E.Same skipConstantBody where
  same := by
    have opens : E.Same (sees .lbrace) := same_sees (by decide)
    apply Follows.after
    intro braced
    apply Follows.ite ?_ (.pure rfl)
    exact (follows_group .lbrace .rbrace).bind fun span => .pure rfl

theorem follows_enumConstant : E.Follows 0 (Member.shift E.offset) enumConstant enumConstant := by
  apply Follows.next
  intro start
  apply follows_modifiers.bind
  intro _
  apply Follows.after
  intro name
  apply Follows.after
  intro args
  apply Follows.after
  intro _
  exact (follows_spanFrom start).bind fun span => .pure rfl

/-- In Groovy the constants may end with the text, where the other parse is at the brace. -/
theorem endConstants_end {c d c' : Cursor} (here : E.At c d) (none : c.rest = [])
    (run : endConstants.on E.inner c = .ok (⟨⟩, c')) :
    endConstants.on E.outer d = .ok (⟨⟩, d) ∧ E.At c' d := by
  rw [endConstants, on_bind_of_ok (on_sees_end none .rbrace), if_neg Bool.false_ne_true,
    on_endDeclaration, on_expect, none] at run
  constructor
  · rw [endConstants, on_bind_of_ok (on_sees .rbrace), here.rest, none, closed, List.map_nil,
      List.nil_append, List.head?_cons, Option.map_some, E.closes]
    rfl
  · split at run
    · cases run
    · cases run
      exact here

instance : E.Same endConstants where
  same := by
    constructor
    intro c d c' a here _ run
    by_cases none : c.rest = []
    · obtain ⟨found, there⟩ := endConstants_end here none run
      exact ⟨d, found, there⟩
    · have follows : E.Follows 1 id endConstants endConstants :=
        (follows_sees .rbrace).bind fun closed => .ite (.pure rfl) Same.same
      exact follows.follow here (List.length_pos_iff.mpr none) run

theorem follows_enumConstantsWithin {m n : Nat} (le : m ≤ n) :
    E.Follows 0 (List.map (Member.shift E.offset)) (enumConstantsWithin m)
      (enumConstantsWithin n) := by
  have semicolon : E.Same (accept .semicolon) := same_accept (by decide)
  have comma : E.Same (accept .comma) := same_accept (by decide)
  induction m generalizing n with
  | zero => exact .throw
  | succ m ih =>
    obtain ⟨n, rfl⟩ : ∃ n', n = n' + 1 := ⟨n - 1, by omega⟩
    apply Follows.after
    intro ended
    apply Follows.ite (.pure rfl)
    apply Follows.demanded
    · apply Demands.stuck fun c none => on_sees_end none .rbrace
      exact inferInstanceAs (Demands E.inner (enumConstant >>= _))
    · apply (follows_sees .rbrace).bind
      intro closed
      apply Follows.ite (.pure rfl)
      apply follows_enumConstant.bind
      intro constant
      apply Follows.after
      intro more
      apply Follows.ite
      · exact (ih (Nat.le_of_succ_le_succ le)).bind fun others => .pure rfl
      · exact .after fun _ => .pure rfl

theorem follows_enumConstants :
    E.Follows 0 (List.map (Member.shift E.offset)) enumConstants enumConstants := by
  have ended {m n : Nat} (le : m ≤ n) : E.Follows 0 (List.map (Member.shift E.offset))
      (do
        let found ← enumConstantsWithin m
        closeDocs
        return found)
      (do
        let found ← enumConstantsWithin n
        closeDocs
        return found) :=
    (follows_enumConstantsWithin le).bind fun found => .after fun _ => .pure rfl
  exact .within ended

end Constants

section Heads

instance : E.Same classKind where
  same := by
    apply Follows.peeked
    · intro t
      split
      · exact .advancing (.pure rfl)
      · exact .advancing (.pure rfl)
      · exact .advancing (.pure rfl)
      · exact .advancing (.after fun _ => .pure rfl)
      · exact .after fun _ => .pure rfl
    · rfl

theorem same_typeRefs : E.Same (separated .comma typeRef) :=
  same_separated (by decide)

instance (kind : ClassKind) : E.Same (extendsClause kind) := by
  have types := same_typeRefs (E := E)
  unfold extendsClause
  infer_instance

instance : E.Same implementsClause := by
  have types := same_typeRefs (E := E)
  unfold implementsClause
  infer_instance

instance : E.Same skipPermits := by
  have types := same_typeRefs (E := E)
  unfold skipPermits
  infer_instance

instance (kind : ClassKind) : E.Same (supertypes kind) := by
  unfold supertypes
  infer_instance

theorem follows_recordComponents (kind : ClassKind) :
    E.Follows 0 (List.map (Param.shift E.offset)) (recordComponents kind)
      (recordComponents kind) :=
  .ite follows_params (.pure rfl)

theorem follows_classHead : E.Follows 0 (ClassHead.shift E.offset) classHead classHead := by
  apply Follows.after
  intro kind
  apply Follows.after
  intro name
  apply Follows.after
  intro typeParams
  apply (follows_recordComponents kind).bind
  intro components
  exact .after fun supertypes => .pure rfl

end Heads

section Bodies

variable {member member' : Parser (List Member)}

theorem follows_leadingConstants (kind : ClassKind) :
    E.Follows 0 (List.map (Member.shift E.offset)) (leadingConstants kind)
      (leadingConstants kind) :=
  .ite follows_enumConstants (.pure rfl)

theorem follows_classStep (members : E.Follows 0 (List.map (Member.shift E.offset)) member member') :
    E.Follows 0 (Option.map (List.map (Member.shift E.offset))) (classStep member)
      (classStep member') := by
  apply Follows.demanded
  · apply Demands.stuck fun c none => on_sees_end none .rbrace
    exact inferInstanceAs (Demands E.inner (expectMore >>= _))
  · apply (follows_sees .rbrace).bind
    intro closed
    apply Follows.ite (.pure rfl)
    apply Follows.after
    intro _
    exact members.bind fun found => .pure rfl

theorem follows_classBody (kind : ClassKind)
    (members : E.Follows 0 (List.map (Member.shift E.offset)) member member') :
    E.Follows 0 (List.map (Member.shift E.offset)) (classBody kind member)
      (classBody kind member') := by
  apply (follows_leadingConstants kind).bind
  intro constants
  apply (follows_many (follows_classStep members)).bind
  intro others
  apply Follows.pure
  rw [List.map_append, List.map_flatten]

theorem follows_bracedBody (kind : ClassKind)
    (members : E.Follows 0 (List.map (Member.shift E.offset)) member member') :
    E.Follows 0 (Prod.map (List.map (Member.shift E.offset)) (Span.shift E.offset))
      (bracedBody kind member) (bracedBody kind member') := by
  apply Follows.next
  intro start
  apply Follows.after
  intro _
  apply (follows_raiseDocFloor start).bind
  intro _
  apply (follows_classBody kind members).bind
  intro found
  apply Follows.after
  intro _
  exact (follows_spanFrom start).bind fun span => .pure rfl

theorem follows_classOver {member member' : String → Parser (List Member)}
    (members : ∀ name, E.Follows 0 (List.map (Member.shift E.offset)) (member name) (member' name))
    (modifiers : Modifiers) (start : Nat) (doc : Option String) :
    E.Follows 0 id (classOver member modifiers start doc)
      (classOver member' (modifiers.shift E.offset) (E.offset + start) doc) := by
  apply follows_classHead.bind
  intro head
  apply (follows_bracedBody head.kind (members head.name)).bind
  intro body
  apply Follows.after
  intro _
  apply (follows_spanFrom start).bind
  intro span
  exact follows_addClass _

end Bodies

section Members

variable {className : String} {doc : Option String}

theorem follows_compactConstructor (modifiers : Modifiers) (typeParams : List TypeParam)
    (start : Nat) :
    E.Follows 0 (Member.shift E.offset) (compactConstructor modifiers typeParams start doc)
      (compactConstructor (modifiers.shift E.offset) typeParams (E.offset + start) doc) := by
  apply Follows.after
  intro name
  apply follows_block.bind
  intro body
  exact (follows_spanFrom start).bind fun span => .pure rfl

theorem follows_methodOrFields (modifiers : Modifiers) (typeParams : List TypeParam)
    (start : Nat) :
    E.Follows 0 (List.map (Member.shift E.offset))
      (methodOrFields modifiers typeParams start doc)
      (methodOrFields (modifiers.shift E.offset) typeParams (E.offset + start) doc) := by
  have opens : E.Same (sees .lparen) := same_sees (by decide)
  apply Follows.after
  intro type
  apply Follows.after
  intro name
  apply Follows.after
  intro called
  apply Follows.ite
  · exact (follows_methodRest modifiers (some type) start).bind fun m => .pure rfl
  · exact follows_fieldRest modifiers type start

theorem follows_typedMember (modifiers : Modifiers) (start : Nat) :
    E.Follows 0 (List.map (Member.shift E.offset)) (typedMember className modifiers start doc)
      (typedMember className (modifiers.shift E.offset) (E.offset + start) doc) := by
  apply Follows.after
  intro typeParams
  apply Follows.lookingTwo
  · intro ts
    apply Follows.weaken (m := 0) ?_ (Nat.zero_le _)
    apply Follows.ite
    · exact (follows_compactConstructor modifiers typeParams start).bind fun m => .pure rfl
    · apply Follows.ite
      · apply Follows.after
        intro name
        exact (follows_methodRest modifiers none start).bind fun m => .pure rfl
      · exact follows_methodOrFields modifiers typeParams start
  · rfl
  · intro t
    simp

instance : E.Same staticWord where
  same := by
    apply Follows.lookingTwo
    · intro ts
      split
      · rename_i word
        rw [word]
        exact Follows.weaken (m := 1) (.advancing (.pure rfl)) (by decide)
      · exact .pure rfl
    · rfl
    · simp

theorem follows_initializerBlock? (start : Nat) :
    E.Follows 0 (Option.map (Member.shift E.offset)) (initializerBlock? start)
      (initializerBlock? (E.offset + start)) := by
  have opens : E.Same (sees .lbrace) := same_sees (by decide)
  apply Follows.after
  intro isStatic
  apply Follows.after
  intro braced
  apply Follows.ite ?_ (.pure rfl)
  apply (follows_group .lbrace .rbrace).bind
  intro _
  apply Follows.after
  intro _
  exact (follows_spanFrom start).bind fun span => .pure rfl

section Nested

variable {nested nested' : Modifiers → Nat → Option String → Parser ClassId}

/-- Nested classes are read alike, whatever stands in front of them. -/
def Nests (E : Enclosure) (nested nested' : Modifiers → Nat → Option String → Parser ClassId) :
    Prop :=
  ∀ modifiers start doc, E.Follows 0 id (nested modifiers start doc)
    (nested' (modifiers.shift E.offset) (E.offset + start) doc)

theorem follows_declaredMember (nests : E.Nests nested nested') (start : Nat) :
    E.Follows 0 (List.map (Member.shift E.offset)) (declaredMember nested className start)
      (declaredMember nested' className (E.offset + start)) := by
  apply (follows_docBefore start).bind
  intro doc
  apply follows_modifiers.bind
  intro modifiers
  apply Follows.lookingTwo
  · intro ts
    apply Follows.weaken (m := 0) ?_ (Nat.zero_le _)
    apply Follows.ite
    · apply (nests modifiers start doc).bind
      intro id
      exact (follows_spanFrom start).bind fun span => .pure rfl
    · apply (follows_typedMember modifiers start).bind
      intro members
      exact .after fun _ => .pure rfl
  · rfl
  · intro t
    rw [beginsClass_rbrace]

theorem follows_memberOver [∀ modifiers start doc, Eats E.inner (nested modifiers start doc)]
    (nests : E.Nests nested nested') :
    E.Follows 0 (List.map (Member.shift E.offset)) (memberOver nested className)
      (memberOver nested' className) := by
  have semicolon : E.Same (accept .semicolon) := same_accept (by decide)
  have demands : Demands E.inner (memberOver nested className) := inferInstance
  unfold memberOver at demands ⊢
  apply Follows.next
  intro start
  apply Follows.after
  intro empty
  apply Follows.ite (.pure rfl)
  apply (follows_initializerBlock? start).bind
  intro found
  cases found with
  | some block => exact .pure rfl
  | none => exact follows_declaredMember nests start

end Nested

theorem nests_classWithin {m n : Nat} (le : m ≤ n) :
    E.Nests (classWithin m) (classWithin n) := by
  induction m generalizing n with
  | zero => exact fun modifiers start doc => .throw
  | succ m ih =>
    obtain ⟨n, rfl⟩ : ∃ n', n = n' + 1 := ⟨n - 1, by omega⟩
    intro modifiers start doc
    apply follows_classOver
    intro name
    exact follows_memberOver (ih (Nat.le_of_succ_le_succ le))

/-- The classes nested in the text are read alike where there is a level for each of its tokens. -/
theorem nests_limit {depth : Nat} (deep : E.limit < depth) :
    E.Nests classDecl (classWithin depth) := by
  intro modifiers start doc
  constructor
  intro c d c' id here some run
  rw [classDecl, on_bind_of_ok on_get] at run
  have enough : c.rest.length + 1 ≤ depth := Nat.le_trans (Nat.succ_le_succ here.short) deep
  exact (nests_classWithin enough modifiers start doc).follow here some run

end Members

end Enclosure

end Parser

end CreatorSynth
