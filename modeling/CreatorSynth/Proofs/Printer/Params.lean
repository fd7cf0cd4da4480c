import CreatorSynth.Proofs.Parser.Progress
import CreatorSynth.Proofs.Printer.Types

/-! Modifiers, type parameters and parameters are read from their pieces. -/
namespace CreatorSynth
open Text

/-! ### Declarations without their places -/

def Annotation.unspanned (a : Annotation) : Annotation :=
  { a with span := Span.none }

def Modifiers.unspanned (m : Modifiers) : Modifiers :=
  { m with annotations := m.annotations.map Annotation.unspanned }

def Param.unspanned (p : Param) : Param :=
  { p with modifiers := p.modifiers.unspanned, span := Span.none }

namespace Parser
open Piece

variable {src : Source} {more : List Piece}

section Annotations

/-- The group that parentheses enclose, in which they are balanced. -/
theorem closeGroup_of_openParens {pieces : List Piece} {depth : Nat} (start : Nat)
    (nested : openParens depth (tokens pieces) = some 0) :
    closeGroup .lparen .rparen depth (ahead start (pieces ++ .token (.symbol .rparen) :: more)) =
      some (⟨.symbol .rparen, start + byteLength (pieces.flatMap text),
          start + byteLength (pieces.flatMap text) + 1⟩,
        ahead (start + byteLength (pieces.flatMap text) + 1) more) := by
  induction pieces generalizing start depth with
  | nil =>
    cases nested
    rfl
  | cons piece pieces ih =>
    rw [List.cons_append, List.flatMap_cons, byteLength_append]
    cases piece with
    | gap g =>
      rw [ahead_gap, ih _ nested, text, Nat.add_assoc]
    | token t =>
      rw [text, ← Nat.add_assoc]
      cases doc : t.isDoc with
      | true =>
        have skipped : tokens (.token t :: pieces) = tokens pieces := by simp [tokens, doc]
        have behind : ∀ ps, ahead start (.token t :: ps) =
            ahead (start + byteLength t.text.toList) ps := fun ps => by simp [ahead, locate, doc]
        rw [skipped] at nested
        rw [behind, ih _ nested]
      | false =>
        rw [tokens_token _ doc] at nested
        rw [ahead_token _ _ doc]
        simp only [openParens] at nested
        simp only [closeGroup]
        split at nested
        · rename_i opens
          rw [if_pos opens, ih _ nested]
        · rename_i opens
          rw [if_neg opens]
          split at nested
          · rename_i closes
            rw [if_pos closes]
            cases depth with
            | zero => cases nested
            | succ depth => exact ih _ nested
          · rename_i closes
            rw [if_neg closes, ih _ nested]

theorem takes_argumentText? {args : String} (proper : IsArguments args) :
    Takes src argumentText? (argumentPieces (some args)) more (· = some args) := by
  have whole : (rawPieces args).flatMap text = args.toList := proper.raw.whole
  rw [argumentPieces]
  refine ⟨fun {c before} here => ?_⟩
  rw [List.cons_append, List.append_assoc] at here
  have inner : At src c.next (before ++ ['(']) (rawPieces args ++ .token (.symbol .rparen) :: more) :=
    here.next rfl
  have start : byteLength before + 1 = byteLength (before ++ ['(']) := by
    rw [byteLength_append]
    rfl
  have closes : closeGroup .lparen .rparen 0 (ahead (byteLength (before ++ ['('])) (rawPieces args ++
      .token (.symbol .rparen) :: more)) = _ := closeGroup_of_openParens _ proper.nested
  rw [whole, ← byteLength_append, ← inner.rest] at closes
  have text : src.text = before ++ ['('] ++ args.toList ++
      (.token (.symbol .rparen) :: more : List Piece).flatMap Piece.text := by
    rw [inner.text, List.flatMap_append, whole, List.append_assoc _ args.toList]
  have opens : c.rest.head?.map (·.token) = some (.symbol .lparen) := here.head
  have stop : byteLength before ≤ byteLength (before ++ ['('] ++ args.toList) + 1 := by
    rw [byteLength_append, ← start]
    omega
  let behind : Cursor := { c.next with
    rest := ahead (byteLength (before ++ ['('] ++ args.toList) + 1) more
    lastStop := byteLength (before ++ ['('] ++ args.toList) + 1 }
  have grouped : (group .lparen .rparen).on src c = .ok
      (⟨byteLength before, byteLength (before ++ ['('] ++ args.toList) + 1⟩, behind) := by
    rw [on_group, if_pos opens, closes, here.rest_token rfl]
    simp only [behind, List.head?_cons, Option.map_some, Option.getD_some, Nat.max_eq_left stop]
  have cutOut := on_cut_of_text (c := behind) text
  rw [proper.raw.trim, String.ofList_toList, ← start] at cutOut
  refine ⟨some args, behind, before ++ ['('] ++ args.toList ++ [')'], ?_, ⟨?_, ?_⟩, rfl⟩
  · rw [argumentText?, on_bind_of_ok (on_sees _), opens]
    simp only [BEq.rfl, ↓reduceIte]
    rw [groupText, bind_assoc, on_bind_of_ok grouped]
    simp only [Nat.add_sub_cancel]
    rw [on_bind_of_ok cutOut, on_pure]
  · rw [text]
    simp [Piece.text, Token.text, Symbol.text]
  · rw [byteLength_append _ [')']]
    rfl

theorem takes_argumentText?_none (ends : (tokens more).head? ≠ some (.symbol .lparen)) :
    Takes src argumentText? [] more (· = none) := by
  refine (takes_sees .lparen).look fun found same => ?_
  rw [same, List.nil_append, beq_eq_false_iff_ne.mpr ends]
  exact .pure rfl

/-- Nothing comes next that would continue an annotation. -/
def EndsAnnotation (more : List Piece) : Prop :=
  ∀ s ∈ [Symbol.dot, .lparen], (tokens more).head? ≠ some (.symbol s)

theorem takes_annotation_pieces {a : Annotation} (readable : a.Readable)
    (ends : EndsAnnotation more) : Takes src annotation a.pieces more (·.unspanned = a.unspanned) := by
  obtain ⟨name, args, span⟩ := a
  refine takes_nextStart.look fun start _ => ?_
  refine (takes_expect .atSign).step fun _ _ => ?_
  have behind : (tokens (argumentPieces args ++ more)).head? ≠ some (.symbol .dot) := by
    cases args with
    | none => exact ends .dot (by simp)
    | some args => nofun
  refine (takes_qualifiedName readable.name (endsPath_of_head? behind)).bind
    fun found same => ?_
  subst same
  have arguments : Takes src argumentText? (argumentPieces args) more (· = args) := by
    cases args with
    | none => exact takes_argumentText?_none (ends .lparen (by simp))
    | some args => exact takes_argumentText? (readable.args args rfl)
  refine arguments.finish fun found same => ?_
  subst same
  exact (takes_spanFrom start).finish fun _ _ => .pure rfl

end Annotations

section Modifiers

/-- What stands behind modifiers: no modifier, and nothing that would continue one. -/
def EndsModifiers (more : List Piece) : Prop :=
  (tokens more).head? = some (.symbol .langle) ∨
    ∃ s, (tokens more).head? = some (wordToken s) ∧ isModifierKeyword s = false

theorem EndsModifiers.endsAnnotation (ends : EndsModifiers more) : EndsAnnotation more := by
  intro s member same
  rcases ends with angle | ⟨_, word, _⟩
  · rw [angle] at same
    cases same
    simp at member
  · rw [word] at same
    exact wordToken_ne_symbol _ _ (Option.some.inj same)

theorem modifierFrom_word {s : String} (plain : isModifierKeyword s = false) (ts : List Token) :
    modifierFrom (wordToken s :: ts) = pure none := by
  obtain ⟨_, token⟩ | ⟨_, token⟩ := wordToken_cases s
  · rw [token]
    rfl
  · rw [token, modifierFrom, if_neg (by simp [plain])]

theorem takes_modifier_none (ends : EndsModifiers more) :
    Takes src modifier [] more (· = none) := by
  refine (takes_upcoming 2).look fun next same => ?_
  subst same
  rcases ends with head | ⟨s, head, plain⟩
  · obtain ⟨others, shape⟩ := List.head?_eq_some_iff.mp head
    rw [List.nil_append, shape]
    exact .pure rfl
  · obtain ⟨others, shape⟩ := List.head?_eq_some_iff.mp head
    rw [List.nil_append, shape, List.take_succ_cons, modifierFrom_word plain]
    exact .pure rfl

theorem takes_modifier_none_of_token {t : Token} (plain : t.isDoc = false)
    (none : ∀ ts, modifierFrom (t :: ts) = pure Option.none) :
    Takes src modifier [] (.token t :: more) (· = Option.none) := by
  refine (takes_upcoming 2).look fun _ same => ?_
  subst same
  rw [List.nil_append, tokens_token more plain, List.take_succ_cons, none]
  exact .pure rfl

theorem modifierFrom_annotation (s : String) (ts : List Token) :
    modifierFrom (.symbol .atSign :: wordToken s :: ts) =
      (do return some (Sum.inr (← annotation))) := by
  obtain ⟨_, token⟩ | ⟨_, token⟩ := wordToken_cases s <;> rw [token] <;> rfl

/-- A modifier word or an annotation, with blank behind it. -/
def modifierPieces (blank : Char) : String ⊕ Annotation → List Piece
  | .inl word => [.token (.name word), .gap [' ']]
  | .inr a => a.pieces ++ [.gap [blank]]

theorem takes_modifier {blank : Char} {item : String ⊕ Annotation}
    (word : ∀ word, item = .inl word → isModifierKeyword word = true)
    (readable : ∀ a, item = .inr a → a.Readable) (next : EndsAnnotation more) :
    Takes src modifier (modifierPieces blank item) more fun found =>
      ∃ a, found = some a ∧ a.map id Annotation.unspanned = item.map id Annotation.unspanned := by
  refine (takes_upcoming 2).look fun _ same => ?_
  subst same
  cases item with
  | inl word =>
    have known := word _ rfl
    simp only [modifierPieces, List.cons_append, List.nil_append, tokens_name, List.take_succ_cons,
      modifierFrom, if_pos known]
    exact Takes.gap_behind ((takes_advance rfl).finish fun _ _ => .pure ⟨_, rfl, rfl⟩)
  | inr a =>
    obtain ⟨first, others, split, shape⟩ := exists_dottedPieces a.name
    have opens : (tokens (modifierPieces blank (.inr a) ++ more)).take 2 =
        [.symbol .atSign, wordToken first] := by
      rw [modifierPieces, Annotation.pieces, shape]
      simp
    rw [opens, modifierFrom_annotation]
    have behind : EndsAnnotation (.gap [blank] :: more) := next
    exact Takes.gap_behind ((takes_annotation_pieces (readable a rfl) behind).finish fun _ same =>
      .pure ⟨_, rfl, congrArg Sum.inr same⟩)

theorem takes_modifiers {blank : Char} {m : Modifiers} (readable : m.Readable)
    (ends : EndsModifiers more) :
    Takes src modifiers (m.pieces blank) more (·.unspanned = m.unspanned) := by
  let items : List (String ⊕ Annotation) := m.annotations.map .inr ++ m.keywords.map .inl
  have shape : m.pieces blank = items.flatMap (modifierPieces blank) := by
    simp only [items, List.flatMap_append, List.flatMap_map]
    rfl
  have loop : Takes src (many modifier) (items.flatMap (modifierPieces blank)) more fun found =>
      found.map (Sum.map id Annotation.unspanned) =
        items.map (Sum.map id Annotation.unspanned) := by
    refine takes_many EndsAnnotation (fun item member more next => ?_) (fun item _ more => ?_)
      ends.endsAnnotation (fun item _ => ?_) (takes_modifier_none ends)
    · refine takes_modifier (fun word same => ?_) (fun a same => ?_) next
      · subst same
        exact readable.keywords word (by simpa [items] using member)
      · subst same
        exact readable.annotations a (by simpa [items] using member)
    · intro s member same
      cases item <;> cases same
      simp at member
    · cases item <;> nofun
  rw [shape]
  refine loop.finish fun found same => .pure ?_
  have none {β γ : Type} (bs : List β) : bs.filterMap (fun _ => (none : Option γ)) = [] :=
    List.filterMap_eq_nil_iff.mpr fun _ _ => rfl
  have words : found.filterMap Sum.getLeft? = m.keywords := by
    have left := congrArg (List.filterMap Sum.getLeft?) same
    simpa [items, none, List.filterMap_map, Function.comp_def] using left
  have annotations : (found.filterMap Sum.getRight?).map Annotation.unspanned =
      m.annotations.map Annotation.unspanned := by
    have right := congrArg (List.filterMap Sum.getRight?) same
    simpa [items, none, List.filterMap_map, List.map_filterMap, Function.comp_def] using right
  rw [Modifiers.unspanned, Modifiers.unspanned, words, annotations]

end Modifiers

section TypeParams

theorem endsModifiers_typeRef {t : TypeRef} (leads : LeadsOn t.name) (more : List Piece) :
    EndsModifiers (t.pieces ++ more) := by
  obtain ⟨name, args, dims⟩ := t
  obtain ⟨first, others, split, shape⟩ := exists_dottedPieces name
  refine .inr ⟨first, ?_, leads first (by rw [split]; rfl)⟩
  rw [TypeRef.pieces, shape, List.cons_append, List.cons_append, tokens_word]
  rfl

theorem takes_types {s : Symbol} {separator : List Piece} {types : List TypeRef}
    (some : types ≠ []) (worded : ∀ t ∈ types, t.Worded)
    (separates : ∀ more, Takes src (accept s) separator more (· = true))
    (next : ∀ more, EndsType (separator ++ more)) (apart : tokens separator ≠ [])
    (last : EndsType more) (ends : (tokens more).head? ≠ Option.some (.symbol s)) :
    Takes src (separated s typeRef) (separatedBy separator (types.map TypeRef.pieces)) more
      (· = types) :=
  takes_separated_self EndsType some separates
    (fun t member _ ends => takes_typeRef (worded t member) ends) next last apart ends

theorem takes_bounds {types : List TypeRef} (worded : ∀ t ∈ types, t.Worded)
    (ends : EndsTypeArg more) :
    Takes src bounds (if types.isEmpty then [] else
      .gap [' '] :: .token (.keyword .extendsWord) :: .gap [' '] ::
        separatedBy ampersandPieces (types.map TypeRef.pieces)) more (· = types) := by
  cases types with
  | nil =>
    have other : (tokens more).head? ≠ some (.keyword .extendsWord) := by
      rcases ends with head | head <;> rw [head] <;> simp
    refine (takes_acceptKeyword_none other).look fun _ same => ?_
    subst same
    exact .pure rfl
  | cons t ts =>
    refine .gap ((takes_acceptKeyword .extendsWord).step fun _ same => ?_)
    subst same
    refine .gap (takes_types (List.cons_ne_nil _ _) worded
      (fun more => .gap (Takes.gap_behind (takes_accept .ampersand)))
      (fun more => endsType_of_head? fun s member same => ?_) (List.cons_ne_nil _ _)
      ends.endsType ?_)
    · cases same
      simp at member
    · rcases ends with head | head <;> rw [head] <;> simp

theorem takes_typeParam {p : TypeParam} (readable : p.Readable) (ends : EndsTypeArg more) :
    Takes src typeParam p.pieces more (· = p) := by
  obtain ⟨name, found⟩ := p
  have empty : Modifiers.empty.Readable := ⟨nofun, nofun⟩
  have noModifiers : Takes src modifiers (Modifiers.empty.pieces ' ')
      (TypeParam.pieces ⟨name, found⟩ ++ more) fun _ => True :=
    (takes_modifiers empty (.inr ⟨name, by rw [TypeParam.pieces, List.cons_append, tokens_word]; rfl,
      readable.leads⟩)).weaken fun _ _ => trivial
  refine noModifiers.look fun _ _ => ?_
  refine (takes_word name).step fun _ same => ?_
  subst same
  exact (takes_bounds readable.bounds ends).finish fun found same => .pure (congrArg _ same)

theorem takes_typeParams {params : List TypeParam} (readable : ∀ p ∈ params, p.Readable)
    (ends : (tokens more).head? ≠ some (.symbol .langle)) :
    Takes src typeParams (typeParamPieces params) more (· = params) := by
  cases params with
  | nil =>
    refine (takes_accept_none ends).look fun _ same => ?_
    subst same
    exact .pure rfl
  | cons p ps =>
    refine (takes_accept .langle).step fun _ same => ?_
    subst same
    have each : Takes src (separated .comma typeParam)
        (separatedBy commaPieces ((p :: ps).map TypeParam.pieces))
        ([.token (.symbol .rangle), .gap [' ']] ++ more) (· = p :: ps) :=
      takes_separated_self EndsTypeArg (List.cons_ne_nil _ _) takes_comma
        (fun p member more ends => takes_typeParam (readable p member) ends) (fun _ => .inl rfl)
        (.inr rfl) nofun nofun
    refine each.bind fun found same => ?_
    subst same
    have closing : Takes src (do expect .rangle; return p :: ps) [.token (.symbol .rangle)]
        (.gap [' '] :: more) (· = p :: ps) :=
      (takes_expect .rangle).finish fun _ _ => .pure rfl
    exact closing.gap_behind

end TypeParams

section Params

theorem head_modifiersPieces {blank : Char} (m : Modifiers) {s : Symbol} (other : s ≠ .atSign)
    (ends : (tokens more).head? ≠ some (.symbol s)) :
    (tokens (m.pieces blank ++ more)).head? ≠ some (.symbol s) := by
  obtain ⟨words, annotations⟩ := m
  intro same
  rw [Modifiers.pieces] at same
  cases annotations with
  | cons a annotations =>
    cases same
    exact other rfl
  | nil =>
    cases words with
    | cons word words => cases same
    | nil => exact ends same

theorem takes_param? {p : Param} (readable : p.Readable)
    (ends : (tokens more).head? ≠ some (.symbol .lbracket)) :
    Takes src param? p.pieces more fun found =>
      found.map Param.unspanned = some p.unspanned := by
  obtain ⟨found, type, name, varargs, span⟩ := p
  let dots : List Piece := if varargs then [.token (.symbol .ellipsis)] else []
  let named : List Piece := [.gap [' '], .token (wordToken name)]
  refine takes_nextStart.look fun start _ => ?_
  have typed : EndsModifiers (type.pieces ++ (dots ++ named) ++ more) := by
    rw [List.append_assoc]
    exact endsModifiers_typeRef readable.leads _
  refine (takes_modifiers readable.modifiers typed).bind fun modifiers same => ?_
  have head : (tokens (named ++ more)).head? = some (wordToken name) := by simp [named]
  have other (s : Symbol) : (tokens (named ++ more)).head? ≠ some (.symbol s) := by
    rw [head]
    exact fun same => wordToken_ne_symbol _ _ (Option.some.inj same)
  have typeEnds : EndsType (dots ++ named ++ more) := by
    refine endsType_of_head? fun s member => ?_
    cases varargs with
    | true =>
      intro same
      cases same
      simp at member
    | false => exact other s
  refine (takes_typeRef readable.type typeEnds).bind fun _ same' => ?_
  subst same'
  have ellipsis : Takes src (accept .ellipsis) dots (named ++ more) (· = varargs) := by
    cases varargs with
    | true => exact takes_accept .ellipsis
    | false => exact takes_accept_none (other .ellipsis)
  refine ellipsis.bind fun _ same' => ?_
  subst same'
  have receiver : (tokens (named ++ more)).head? ≠ some (.keyword .thisWord) := by
    rw [head]
    exact fun same => @wordToken_ne_keyword .thisWord nofun _ (Option.some.inj same)
  refine (takes_acceptKeyword_none receiver).look fun _ same' => ?_
  subst same'
  refine .gap ((takes_word name).step fun _ same' => ?_)
  subst same'
  refine (takes_dimensions 0 ends).look fun _ same' => ?_
  subst same'
  refine (takes_spanFrom start).finish fun _ _ => .pure ?_
  rw [Option.map_some, Param.unspanned, TypeRef.array_zero, same]
  rfl

theorem takes_params {params : List Param} (readable : ∀ p ∈ params, p.Readable) :
    Takes src Parser.params (.token (.symbol .lparen) ::
      (separatedBy commaPieces (params.map Param.pieces) ++ [.token (.symbol .rparen)])) more
      fun found => found.map Param.unspanned = params.map Param.unspanned := by
  refine (takes_expect .lparen).step fun _ _ => ?_
  cases params with
  | nil =>
    refine (takes_accept .rparen).finish fun _ same => ?_
    subst same
    exact .pure rfl
  | cons p ps =>
    have opens : (tokens (separatedBy commaPieces ((p :: ps).map Param.pieces) ++
        [.token (.symbol .rparen)] ++ more)).head? ≠ some (.symbol .rparen) := by
      rw [List.map_cons, separatedBy, List.append_assoc, List.append_assoc, Param.pieces,
        List.append_assoc, List.append_assoc]
      obtain ⟨first, head⟩ := head_tokens_typeRef p.type
      refine head_modifiersPieces _ (by simp) ?_
      rw [head]
      simp
    refine (takes_accept_none opens).look fun _ same => ?_
    subst same
    have each : Takes src (separated .comma param?)
        (separatedBy commaPieces ((p :: ps).map Param.pieces)) ([.token (.symbol .rparen)] ++ more)
        fun found => found.map (Option.map Param.unspanned) =
          (p :: ps).map fun p => some p.unspanned :=
      takes_separated (fun more => (tokens more).head? ≠ some (.symbol .lbracket))
        (List.cons_ne_nil _ _) takes_comma
        (fun p member more ends => takes_param? (readable p member) ends)
        (fun _ => by simp [commaPieces]) (by simp) (List.cons_ne_nil _ _) (by simp)
    refine each.bind fun found same => ?_
    refine (takes_expect .rparen).finish fun _ _ => .pure ?_
    have given := congrArg (List.filterMap id) same
    simpa [List.filterMap_map, List.map_filterMap, Function.comp_def] using given

theorem takes_throwsClause {throws : List TypeRef} (worded : ∀ t ∈ throws, t.Worded)
    {s : Symbol} (other : s ∉ [Symbol.langle, .dot, .lbracket, .comma])
    (ends : (tokens more).head? = some (.symbol s)) :
    Takes src throwsClause (throwsPieces throws) more (· = throws) := by
  cases throws with
  | nil =>
    have none : (tokens more).head? ≠ some (.keyword .throwsWord) := by
      rw [ends]
      nofun
    refine (takes_acceptKeyword_none none).look fun _ same => ?_
    subst same
    exact .pure rfl
  | cons t ts =>
    refine .gap ((takes_acceptKeyword .throwsWord).step fun _ same => ?_)
    subst same
    have behind : ∀ s' ∈ [Symbol.langle, .dot, .lbracket, .comma],
        (tokens more).head? ≠ some (.symbol s') := by
      intro s' member same
      rw [ends] at same
      cases same
      exact other member
    refine .gap (takes_types (List.cons_ne_nil _ _) worded takes_comma
      (fun more => endsType_of_head? fun s member same => ?_) nofun
      (endsType_of_head? fun s' member => behind s' ?_) (behind .comma (by simp)))
    · cases same
      simp at member
    · simp only [List.mem_cons, List.not_mem_nil, or_false] at member ⊢
      rcases member with rfl | rfl | rfl <;> simp

end Params

end Parser

end CreatorSynth
