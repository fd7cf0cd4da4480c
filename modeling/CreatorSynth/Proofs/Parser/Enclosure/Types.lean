import CreatorSynth.Proofs.Parser.Enclosure.Raw

/-! Names, annotations, modifiers, types and type parameters are read alike in front of the
brace. -/
namespace CreatorSynth
open Text

namespace Parser

namespace Enclosure

variable {E : Enclosure}

section Names

instance : E.Same dotName where
  same := by
    apply Follows.lookingTwo
    · intro ts
      split
      · exact .advancing (.advancing (.pure rfl))
      · exact .pure rfl
    · rfl
    · intro t
      cases t with
      | symbol s => cases s <;> rfl
      | _ => rfl

instance : E.Same qualifiedName := by
  unfold qualifiedName
  infer_instance

theorem follows_annotation :
    E.Follows 0 (.shift E.offset) annotation annotation := by
  apply Follows.next
  intro start
  apply Follows.after
  intro _
  apply Follows.after
  intro name
  apply Follows.after
  intro args
  exact (follows_spanFrom start).bind fun span => .pure rfl

/-- A modifier so many bytes further on. -/
def shiftModifier (n : Nat) : String ⊕ Annotation → String ⊕ Annotation :=
  Sum.map id (.shift n)

theorem follows_modifier :
    E.Follows 0 (Option.map (shiftModifier E.offset)) modifier modifier := by
  apply Follows.lookingTwo
  · intro ts
    unfold modifierFrom
    split
    · exact .pure rfl
    · apply Follows.weaken (m := 0) ?_ (Nat.zero_le _)
      exact follows_annotation.bind fun a => .pure rfl
    · rename_i word more
      rw [List.length_cons]
      exact .ite (.advancing (.pure rfl)) (.pure rfl)
    · exact .pure rfl
  · rfl
  · intro t
    cases t with
    | symbol s => cases s <;> rfl
    | _ => rfl

theorem follows_modifiers :
    E.Follows 0 (Modifiers.shift E.offset) modifiers modifiers := by
  apply (follows_many follows_modifier).bind
  intro found
  apply Follows.pure
  rw [Modifiers.shift, List.filterMap_map, List.filterMap_map, List.map_filterMap,
    Modifiers.mk.injEq]
  constructor
  · change found.filterMap Sum.getLeft? = _
    congr 1
    funext m
    cases m <;> rfl
  · congr 1
    funext m
    cases m <;> rfl

instance : E.Same dimension where
  same := by
    apply Follows.lookingTwo
    · intro ts
      split
      · rename_i brackets
        rw [brackets]
        exact .advancing (.advancing (.pure rfl))
      · exact .pure rfl
    · rfl
    · simp

instance : E.Same dimensions := by
  unfold dimensions
  infer_instance

end Names

section Types

variable {type type' : Parser TypeRef}

theorem follows_typeArg (types : E.Follows 0 id type type') :
    E.Follows 0 id (typeArg type) (typeArg type') := by
  have question : E.Same (accept .question) := same_accept (by decide)
  have bounded {f : TypeRef → TypeArg} :
      E.Follows 0 id (do return f (← type)) (do return f (← type')) :=
    types.bind fun t => .pure rfl
  apply Follows.after
  intro wildcard
  apply Follows.ite ?_ bounded
  apply Follows.after
  intro upper
  apply Follows.ite bounded
  apply Follows.after
  intro lower
  exact .ite bounded (.pure rfl)

theorem follows_typeArgs? (types : E.Follows 0 id type type') :
    E.Follows 0 id (typeArgs? type) (typeArgs? type') := by
  have opening : E.Same (accept .langle) := same_accept (by decide)
  have closing : E.Same (accept .rangle) := same_accept (by decide)
  have args := follows_separated (s := .comma) (by decide) (follows_typeArg types)
  rw [List.map_id_fun] at args
  apply Follows.after
  intro opens
  apply Follows.ite ?_ (.pure rfl)
  apply Follows.after
  intro empty
  apply Follows.ite (.pure rfl)
  apply args.bind
  intro found
  exact .after fun _ => .pure rfl

theorem follows_typeSegment (types : E.Follows 0 id type type') :
    E.Follows 0 id (typeSegment type) (typeSegment type') := by
  apply Follows.after
  intro name
  split
  · exact (follows_typeArgs? types).bind fun args => .pure rfl
  · exact .pure rfl

theorem follows_typeRefOver (types : E.Follows 0 id type type') :
    E.Follows 0 id (typeRefOver type) (typeRefOver type') := by
  have note : E.Same (sees .atSign) := same_sees (by decide)
  have notes : E.Follows 0 (Option.map (.shift E.offset))
      (do
        if ← sees .atSign then return some (← annotation)
        return none)
      (do
        if ← sees .atSign then return some (← annotation)
        return none) :=
    .after fun noted => .ite (.bind follows_annotation fun a => .pure rfl) (.pure rfl)
  have segments := follows_many (f := id) (Option.map_id ▸ follows_typeSegment types)
  rw [List.map_id_fun] at segments
  apply (follows_many notes).bind
  intro _
  apply Follows.after
  intro first
  apply (follows_typeArgs? types).bind
  intro args
  apply segments.bind
  intro others
  exact .after fun dims => .pure rfl

theorem follows_typeRefWithin {m n : Nat} (le : m ≤ n) :
    E.Follows 0 id (typeRefWithin m) (typeRefWithin n) := by
  induction m generalizing n with
  | zero => exact .throw
  | succ m ih =>
    obtain ⟨n, rfl⟩ : ∃ n', n = n' + 1 := ⟨n - 1, by omega⟩
    exact follows_typeRefOver (ih (Nat.le_of_succ_le_succ le))

instance : E.Same typeRef :=
  ⟨.within follows_typeRefWithin⟩

instance : E.Same bounds := by
  have types : E.Same (separated .ampersand typeRef) := same_separated (by decide)
  unfold bounds
  infer_instance

instance : E.Same typeParam where
  same := by
    apply follows_modifiers.bind
    intro _
    apply Follows.after
    intro name
    exact .after fun bounds => .pure rfl

instance : E.Same typeParams := by
  have opening : E.Same (accept .langle) := same_accept (by decide)
  have params : E.Same (separated .comma typeParam) := same_separated (by decide)
  unfold typeParams
  infer_instance

end Types

end Enclosure

end Parser

end CreatorSynth
