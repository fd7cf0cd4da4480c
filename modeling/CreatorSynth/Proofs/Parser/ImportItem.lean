import CreatorSynth.Proofs.Parser.Header
import CreatorSynth.Proofs.Printer.Members
import CreatorSynth.Proofs.Token.PathPieces

/-! An import of one class, from its text to its item. It is read if its segments are names, or the
word `record`, and the first one is not taken for the word that imports members. -/
namespace CreatorSynth
open Text

namespace Piece

theorem ofWord_cases (s : String) : ofWord s.toList = token (wordToken s) ∨
    ∃ word, word ≠ .recordWord ∧ ofWord s.toList = token (.keyword word) := by
  rw [ofWord, String.ofList_toList]
  cases found : Keyword.ofText? s with
  | none =>
    left
    rw [wordToken, if_neg]
    rintro rfl
    cases found
  | some word =>
    have same : word.text = s := by simpa using List.find?_some found
    by_cases record : word = .recordWord
    · left
      rw [wordToken, if_pos (by rw [← same, record]), record]
    · exact .inr ⟨word, record, rfl⟩

end Piece

namespace Parser
open Piece

variable {src : Source} {more : List Piece} {start : Nat}

theorem fails_identifier_keyword {word : Keyword} (other : word ≠ .recordWord) :
    Fails src identifier (token (.keyword word) :: more) := by
  refine ⟨fun {c before} here => ⟨mismatchAt src c .identifier, ?_⟩⟩
  rw [on_identifier, here.head, tokens_keyword, List.head?_cons]
  cases word <;> first | rfl | exact absurd rfl other

/-- In front of the pieces and more, the parser takes the pieces and answers as said, or it finds an
error. -/
structure Decides {α : Type} (src : Source) (p : Parser α) (pieces more : List Piece)
    (answer : α → Prop) : Prop where
  decide : ∀ {c : Cursor} {before : List Char}, At src c before (pieces ++ more) →
    (∃ e, p.on src c = .error e) ∨
    ∃ a c' before', p.on src c = .ok (a, c') ∧ At src c' before' more ∧ answer a

namespace Decides

variable {α β : Type} {p : Parser α} {f : α → Parser β} {A : α → Prop} {B : β → Prop}
  {pieces others : List Piece}

theorem of_takes (takes : Takes src p pieces more A) : Decides src p pieces more A :=
  ⟨fun here => .inr (takes.take here)⟩

theorem of_fails (fails : Fails src p (pieces ++ more)) : Decides src p pieces more A :=
  ⟨fun here => .inl (fails.fail here)⟩

theorem bind (first : Decides src p pieces (others ++ more) A)
    (second : ∀ a, A a → Decides src (f a) others more B) :
    Decides src (p >>= f) (pieces ++ others) more B := by
  refine ⟨fun here => ?_⟩
  rw [List.append_assoc] at here
  rcases first.decide here with ⟨e, run⟩ | ⟨a, mid, before', run, between, known⟩
  · exact .inl ⟨e, by rw [on_bind, run]; rfl⟩
  rw [on_bind_of_ok run]
  exact (second a known).decide between

theorem once {piece : Piece} (first : Decides src p [piece] (pieces ++ more) A)
    (second : ∀ a, A a → Decides src (f a) pieces more B) :
    Decides src (p >>= f) (piece :: pieces) more B :=
  bind first second

theorem step {piece : Piece} (first : Takes src p [piece] (pieces ++ more) A)
    (second : ∀ a, A a → Decides src (f a) pieces more B) :
    Decides src (p >>= f) (piece :: pieces) more B :=
  once (of_takes first) second

theorem look (first : Takes src p [] (pieces ++ more) A)
    (second : ∀ a, A a → Decides src (f a) pieces more B) : Decides src (p >>= f) pieces more B :=
  bind (of_takes first) second

theorem finish (first : Decides src p pieces more A)
    (second : ∀ a, A a → Takes src (f a) [] more B) : Decides src (p >>= f) pieces more B := by
  have both := @bind _ _ _ _ _ _ _ _ _ [] first fun a known => of_takes (second a known)
  rwa [List.append_nil] at both

theorem gap {g : List Char} (rest : Decides src p pieces more A) :
    Decides src p (.gap g :: pieces) more A :=
  ⟨fun here => rest.decide here.gap⟩

end Decides

theorem decides_segment (s : String) : Decides src identifier [ofWord s.toList] more (· = s) := by
  rcases ofWord_cases s with same | ⟨word, other, same⟩ <;> rw [same]
  · exact .of_takes (takes_word s)
  · exact .of_fails (fails_identifier_keyword other)

theorem head_tokens_ofWord {s : String} {t : Token}
    (other : t ≠ wordToken s ∧ ∀ word, t ≠ .keyword word) :
    (tokens (ofWord s.toList :: more)).head? ≠ some t := by
  intro head
  rcases ofWord_cases s with same | ⟨word, _, same⟩ <;> rw [same] at head
  · rw [tokens_word] at head
    exact other.1 (Option.some.inj head).symm
  · exact other.2 word (Option.some.inj head).symm

theorem wordToken_ne_operator (s : String) (c : Char) : Token.operator c ≠ wordToken s := by
  rcases wordToken_cases s with ⟨_, token⟩ | ⟨_, token⟩ <;> rw [token] <;> nofun

theorem decides_importTailWithin {others : List String} {bound : Nat}
    (enough : others.length < bound) (ends : (tokens more).head? ≠ some (.symbol .dot)) :
    Decides src (importTailWithin bound) (others.flatMap furtherPieces) more
      (· = (others, false)) := by
  induction others generalizing bound with
  | nil =>
    obtain ⟨bound, rfl⟩ : ∃ b, bound = b + 1 := ⟨bound - 1, by simp at enough; omega⟩
    refine .of_takes ((takes_accept_none ends).finish fun _ same => ?_)
    subst same
    exact .pure rfl
  | cons s others ih =>
    obtain ⟨bound, rfl⟩ : ∃ b, bound = b + 1 := ⟨bound - 1, by omega⟩
    refine .step (takes_accept .dot) fun _ same => ?_
    subst same
    refine .look (takes_acceptToken_none (head_tokens_ofWord
      ⟨wordToken_ne_operator s '*', fun _ => nofun⟩)) fun _ same => ?_
    subst same
    refine .bind (decides_segment s) fun _ same => ?_
    subst same
    exact (ih (Nat.lt_of_succ_lt_succ enough)).finish fun _ same => .pure (by rw [same])

theorem decides_importTail {others : List String}
    (ends : (tokens more).head? ≠ some (.symbol .dot)) :
    Decides src importTail (others.flatMap furtherPieces) more (· = (others, false)) := by
  refine ⟨fun {c before} here => ?_⟩
  rw [importTail, on_bind_of_ok on_get]
  refine (decides_importTailWithin ?_ ends).decide here
  rw [here.length, tokens_append, List.length_append]
  have dots : others.length ≤ (tokens (others.flatMap furtherPieces)).length := by
    clear here
    induction others with
    | nil => exact Nat.zero_le _
    | cons s others ih =>
      rw [List.flatMap_cons, tokens_append, List.length_append, furtherPieces, tokens_symbol]
      simp only [List.length_cons]
      omega
  omega

/-- In Groovy nothing ends an import but what stands behind it. -/
def EndsImport (d : Dialect) (more : List Piece) : Prop :=
  (tokens (d.terminatorPieces ++ more)).head? ≠ some (.symbol .dot) ∧
    (d = .groovy → (tokens more).head? ≠ some (.symbol .semicolon))

theorem takes_terminator (ends : EndsImport src.dialect more) :
    Takes src endDeclaration src.dialect.terminatorPieces more fun _ => True := by
  refine ⟨fun {c before} here => ?_⟩
  rw [on_endDeclaration]
  cases d : src.dialect with
  | java =>
    rw [d] at here
    exact ⟨⟨⟩, c.next, _, here.expect, here.next rfl, trivial⟩
  | groovy =>
    rw [d] at here ends
    refine ⟨⟨⟩, c, before, ?_, here, trivial⟩
    have head : c.rest.head?.map (·.token) = (tokens more).head? := here.head
    simp only [head, if_neg (ends.2 rfl)]

theorem decides_importDecl {first : String} {others : List String} (some : others ≠ [])
    (ends : EndsImport src.dialect more) :
    Decides src (importDecl start) (importPieces src.dialect (first :: others)) more fun decl =>
      decl.path = joinSegments (first :: others) ∧ decl.isStatic = false ∧
        decl.onDemand = false := by
  refine .step (takes_expectKeyword .importWord) fun _ _ => .gap ?_
  by_cases static : first = "static"
  · subst static
    have word : ofWord "static".toList = token (.name "static") := rfl
    obtain ⟨s, others, rfl⟩ := List.exists_cons_of_ne_nil some
    rw [pathPieces, word, List.cons_append]
    refine .step (takes_acceptToken rfl) fun _ _ => .of_fails (Fails.bind ⟨fun here => ?_⟩)
    exact ⟨_, by rw [on_identifier, here.head]; rfl⟩
  · refine .look (takes_acceptToken_none ?_) fun _ same => ?_
    · refine head_tokens_ofWord ⟨fun same => static ?_, fun _ => by simp⟩
      rcases wordToken_cases first with ⟨_, token⟩ | ⟨_, token⟩ <;> rw [token] at same <;> cases same
      rfl
    · subst same
      rw [pathPieces, List.cons_append]
      refine .once (decides_segment first) fun _ same => ?_
      subst same
      refine .bind (decides_importTail ends.1) fun _ same => ?_
      subst same
      refine .finish (.of_takes (takes_terminator ends)) fun _ _ => ?_
      exact (takes_spanFrom start).finish fun _ _ => .pure ⟨rfl, rfl, rfl⟩

theorem decides_item {first : String} {others : List String} (some : others ≠ [])
    (ends : EndsImport src.dialect more) :
    Decides src item (importPieces src.dialect (first :: others)) more fun found =>
      ∃ decl stop, found = .imported decl stop ∧ decl.path = joinSegments (first :: others) ∧
        decl.isStatic = false ∧ decl.onDemand = false := by
  have head : (tokens (importPieces src.dialect (first :: others) ++ more)).head? =
      Option.some (.keyword .importWord) := rfl
  refine .look (takes_accept_none (by simp [head])) fun _ same => ?_
  subst same
  refine .look takes_nextStart fun start _ => .look (takes_docBefore start) fun doc _ => ?_
  have noModifiers : Takes src modifiers []
      (importPieces src.dialect (first :: others) ++ more) fun _ => True :=
    (takes_many_none (takes_modifier_none_of_token rfl fun _ => rfl)).finish
      fun _ _ => .pure trivial
  refine .look noModifiers fun modifiers _ => ?_
  refine .look (takes_upcoming 2) fun next same => ?_
  have imports : next.head? = Option.some (.keyword .importWord) := by
    rw [same]
    rfl
  rw [itemFrom, if_neg (by simp [imports]), if_pos imports]
  refine .finish (decides_importDecl some ends) fun decl known => ?_
  refine Takes.look (A := fun _ => True) (.of_same fun _ => ⟨_, _, rfl, rfl, trivial⟩) fun _ _ => ?_
  exact .of_same fun _ => ⟨_, _, rfl, rfl, decl, _, rfl, known⟩

end Parser

end CreatorSynth
