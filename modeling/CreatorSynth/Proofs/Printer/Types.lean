import CreatorSynth.Proofs.Parser.Taking
import CreatorSynth.Proofs.Printer.Pieces

/-! Names and types are read from their pieces. -/
namespace CreatorSynth.Parser
open Piece Text

variable {src : Source} {more : List Piece}

section Names

theorem head_of_take {n : Nat} {t : Token} {ts : List Token}
    (next : (tokens more).take n = t :: ts) : (tokens more).head? = some t := by
  have head := congrArg List.head? next
  rw [List.head?_take] at head
  split at head
  · cases head
  · exact head

theorem takes_word (s : String) : Takes src identifier [.token (wordToken s)] more (· = s) :=
  ⟨fun here => ⟨_, _, _, here.word, here.next (isDoc_wordToken s), rfl⟩⟩

/-- A segment of a dotted name that is not the first. -/
def segmentPieces (s : String) : List Piece :=
  [.token (.symbol .dot), .token (wordToken s)]

theorem takes_dotName {s : String} (name : IsName s) :
    Takes src dotName (segmentPieces s) more (· = some s) := by
  refine (takes_upcoming 2).look fun next same => ?_
  subst same
  simp only [segmentPieces, wordToken_of_isName name, List.cons_append, List.nil_append,
    tokens_symbol, tokens_name, List.take_succ_cons, List.take_zero]
  exact (takes_advance rfl).step fun _ _ => (takes_advance rfl).finish fun _ _ => .pure rfl

/-- No further segment of a dotted name comes next. -/
def EndsPath (more : List Piece) : Prop :=
  ∀ s, (tokens more).take 2 ≠ [.symbol .dot, .name s]

theorem endsPath_of_head? (other : (tokens more).head? ≠ some (.symbol .dot)) : EndsPath more :=
  fun _ next => other (head_of_take next)

theorem takes_dotName_none (ends : EndsPath more) : Takes src dotName [] more (· = none) := by
  refine (takes_upcoming 2).look fun next same => ?_
  subst same
  split
  · rename_i s next
    exact absurd next (ends s)
  · exact .pure rfl

theorem exists_dottedPieces (name : String) : ∃ first others, segments name = first :: others ∧
    dottedPieces name = .token (wordToken first) :: others.flatMap segmentPieces := by
  cases split : segments name with
  | nil =>
    have empty := List.map_eq_nil_iff.mp split
    exact absurd empty (splitOn_ne_nil '.' name.toList)
  | cons first others =>
    refine ⟨first, others, rfl, ?_⟩
    rw [dottedPieces, split, List.map_cons, separatedBy, List.flatMap_map]
    rfl

theorem takes_qualifiedName {name : String} (path : IsPath name) (ends : EndsPath more) :
    Takes src qualifiedName (dottedPieces name) more (· = name) := by
  obtain ⟨first, others, split, shape⟩ := exists_dottedPieces name
  have names := path.2
  rw [split] at names
  rw [shape]
  refine (takes_word first).step fun _ same => ?_
  subst same
  have segments : Takes src (many dotName) (others.flatMap segmentPieces) more
      fun found => found.map id = others.map id :=
    takes_many (fun _ => True)
      (fun s member more _ => (takes_dotName (names s member)).weaken
        fun found same => ⟨s, same, rfl⟩)
      (fun _ _ _ => trivial) trivial (fun _ _ => nofun)
      (takes_dotName_none ends)
  refine segments.finish fun found same => .pure ?_
  rw [List.map_id, List.map_id] at same
  rw [same, ← split]
  exact joinSegments_segments name

end Names

section Types

/-- Nothing that would continue a type comes next. -/
structure EndsType (more : List Piece) : Prop where
  angle : (tokens more).head? ≠ some (.symbol .langle)
  path : EndsPath more
  bracket : (tokens more).head? ≠ some (.symbol .lbracket)

theorem endsType_of_head?
    (other : ∀ s ∈ [Symbol.langle, .dot, .lbracket], (tokens more).head? ≠ some (.symbol s)) :
    EndsType more :=
  ⟨other .langle (by simp), endsPath_of_head? (other .dot (by simp)), other .lbracket (by simp)⟩

theorem takes_dimensions (dims : Nat) (ends : (tokens more).head? ≠ some (.symbol .lbracket)) :
    Takes src dimensions (dimensionPieces dims) more (· = dims) := by
  have shape : dimensionPieces dims = (List.replicate dims ()).flatMap
      fun _ => [.token (.symbol .lbracket), .token (.symbol .rbracket)] := by
    rw [dimensionPieces, List.flatMap_replicate]
  rw [shape]
  have each : Takes src (many dimension) ((List.replicate dims ()).flatMap
      fun _ => [.token (.symbol .lbracket), .token (.symbol .rbracket)]) more
      fun found => found.map id = (List.replicate dims ()).map id := by
    refine takes_many (fun _ => True) (fun _ _ more _ => ?_) (fun _ _ _ => trivial) trivial
      (fun _ _ => (by simp)) ?_
    · refine (takes_upcoming 2).look fun next same => ?_
      subst same
      simp only [List.cons_append, List.nil_append, tokens_symbol, List.take_succ_cons,
        List.take_zero, ↓reduceIte]
      exact (takes_advance rfl).step fun _ _ => (takes_advance rfl).finish fun _ _ =>
        .pure ⟨(), rfl, trivial⟩
    · refine (takes_upcoming 2).look fun next same => ?_
      subst same
      rw [List.nil_append, if_neg fun next => ends (head_of_take next)]
      exact .pure rfl
  refine each.finish fun found same => .pure ?_
  have length := congrArg List.length same
  simpa using length

theorem listPieces_cons (a : TypeArg) (as : List TypeArg) :
    TypeArg.listPieces (a :: as) = .token (.symbol .langle) ::
      (separatedBy commaPieces ((a :: as).map TypeArg.pieces) ++ [.token (.symbol .rangle)]) := by
  have tail : ∀ as : List TypeArg, TypeArg.morePieces as =
      (as.map TypeArg.pieces).flatMap (commaPieces ++ ·) := by
    intro as
    induction as with
    | nil => rfl
    | cons b bs ih =>
      rw [TypeArg.morePieces, ih, List.map_cons, List.flatMap_cons, List.append_assoc]
  rw [TypeArg.listPieces, tail, List.map_cons, separatedBy, List.append_assoc]

theorem head_tokens_typeRef (t : TypeRef) :
    ∃ first, ∀ more, (tokens (t.pieces ++ more)).head? = some (wordToken first) := by
  obtain ⟨name, args, dims⟩ := t
  obtain ⟨first, others, _, shape⟩ := exists_dottedPieces name
  refine ⟨first, fun more => ?_⟩
  rw [TypeRef.pieces, shape, List.cons_append, List.cons_append, tokens_word]
  rfl

/-- A list of type arguments goes on or ends here. -/
def EndsTypeArg (more : List Piece) : Prop :=
  (tokens more).head? = some (.symbol .comma) ∨ (tokens more).head? = some (.symbol .rangle)

theorem EndsTypeArg.endsType (ends : EndsTypeArg more) : EndsType more := by
  refine endsType_of_head? fun s member same => ?_
  rcases ends with comma | close
  · rw [comma] at same
    cases same
    simp at member
  · rw [close] at same
    cases same
    simp at member

theorem takes_comma (more : List Piece) :
    Takes src (accept .comma) commaPieces more (· = true) :=
  Takes.gap_behind (takes_accept .comma)

/-- The arguments, if there are any. -/
def givenArgs (args : List TypeArg) : Option (List TypeArg) :=
  if args.isEmpty then none else some args

theorem takes_typeArgs? {type : Parser TypeRef} {args : List TypeArg}
    (each : ∀ a ∈ args, ∀ more, EndsTypeArg more → Takes src (typeArg type) a.pieces more (· = a))
    (ends : (tokens more).head? ≠ some (.symbol .langle)) :
    Takes src (typeArgs? type) (TypeArg.listPieces args) more (· = givenArgs args) := by
  cases args with
  | nil =>
    refine (takes_accept_none ends).look fun _ same => ?_
    subst same
    exact .pure rfl
  | cons a as =>
    rw [listPieces_cons]
    refine (takes_accept .langle).step fun _ same => ?_
    subst same
    have opens : (tokens (separatedBy commaPieces ((a :: as).map TypeArg.pieces) ++
        [.token (.symbol .rangle)] ++ more)).head? ≠ some (.symbol .rangle) := by
      rw [List.map_cons, separatedBy, List.append_assoc, List.append_assoc]
      cases a with
      | type t =>
        obtain ⟨first, head⟩ := head_tokens_typeRef t
        rw [TypeArg.pieces, head]
        simp
      | _ =>
        intro same
        cases same
    refine (takes_accept_none opens).look fun _ same => ?_
    subst same
    have items : Takes src (separated .comma (typeArg type))
        (separatedBy commaPieces ((a :: as).map TypeArg.pieces))
        ([.token (.symbol .rangle)] ++ more) (· = a :: as) :=
      takes_separated_self EndsTypeArg (List.cons_ne_nil _ _) takes_comma each (fun _ => .inl rfl)
        (.inr rfl) (List.cons_ne_nil _ _) (by simp)
    refine items.bind fun found same => ?_
    subst same
    exact (takes_expect .rangle).finish fun _ _ => .pure rfl

theorem takes_typeSegment {type : Parser TypeRef} {args : List TypeArg} {s : String}
    (name : IsName s)
    (each : ∀ a ∈ args, ∀ more, EndsTypeArg more → Takes src (typeArg type) a.pieces more (· = a))
    (ends : (tokens more).head? ≠ some (.symbol .langle)) :
    Takes src (typeSegment type) (segmentPieces s ++ TypeArg.listPieces args) more
      (· = some (s, givenArgs args)) := by
  refine (takes_dotName name).bind fun found same => ?_
  subst same
  refine (takes_typeArgs? each ends).finish fun found same => ?_
  subst same
  exact .pure rfl

theorem head_dimensionPieces (dims : Nat) {s : Symbol} (other : s ≠ .lbracket)
    (ends : (tokens more).head? ≠ some (.symbol s)) :
    (tokens (dimensionPieces dims ++ more)).head? ≠ some (.symbol s) := by
  cases dims with
  | zero => exact ends
  | succ dims =>
    intro same
    cases same
    exact other rfl

theorem EndsPath.dimensionPieces (ends : EndsPath more) (dims : Nat) :
    EndsPath (dimensionPieces dims ++ more) := by
  cases dims with
  | zero => exact ends
  | succ dims => exact endsPath_of_head? nofun

theorem takes_typeSegments {type : Parser TypeRef} {args : List TypeArg} {others : List String}
    (some : others ≠ []) (names : ∀ s ∈ others, IsName s)
    (each : ∀ a ∈ args, ∀ more, EndsTypeArg more → Takes src (typeArg type) a.pieces more (· = a))
    (angle : (tokens more).head? ≠ Option.some (.symbol .langle))
    (path : EndsPath more) :
    Takes src (many (typeSegment type))
      (others.flatMap segmentPieces ++ TypeArg.listPieces args) more
      fun found => found.map (·.1) = others ∧
        ((found.map (·.2)).filterMap id).getLast?.getD [] = args := by
  obtain ⟨front, last, rfl⟩ : ∃ front last, others = front ++ [last] :=
    ⟨_, _, (List.dropLast_concat_getLast some).symm⟩
  let item (segment : String × List TypeArg) : List Piece :=
    segmentPieces segment.1 ++ TypeArg.listPieces segment.2
  let items : List (String × List TypeArg) := front.map (·, []) ++ [(last, args)]
  have shape : (front ++ [last]).flatMap segmentPieces ++ TypeArg.listPieces args =
      items.flatMap item := by
    simp only [items, item, List.flatMap_append, List.flatMap_map, List.flatMap_singleton,
      TypeArg.listPieces, List.append_nil, List.append_assoc]
  have loop : Takes src (many (typeSegment type)) (items.flatMap item) more fun found =>
      found.map id = items.map fun segment => (segment.1, givenArgs segment.2) := by
    refine takes_many (fun more => (tokens more).head? ≠ Option.some (.symbol .langle))
      (fun segment member more ends => ?_) (fun _ _ _ => nofun) angle (fun _ _ => nofun) ?_
    · have name : IsName segment.1 := by
        refine names _ ?_
        have known := List.mem_map_of_mem (f := Prod.fst) member
        simpa [items] using known
      refine (takes_typeSegment name ?_ ends).weaken fun found same => ⟨_, same, rfl⟩
      rcases List.mem_append.mp member with front | last
      · obtain ⟨_, _, rfl⟩ := List.mem_map.mp front
        nofun
      · rw [List.mem_singleton.mp last]
        exact each
    · refine (takes_dotName_none path).look fun found same => ?_
      subst same
      exact .pure rfl
  rw [shape]
  refine loop.weaken fun found same => ?_
  rw [List.map_id] at same
  subst same
  constructor
  · simp [items, Function.comp_def]
  · have fronts : (front.map fun s => givenArgs (s, ([] : List TypeArg)).2).filterMap id = [] := by
      simp [givenArgs]
    simp only [items, List.map_append, List.map_map, List.filterMap_append, Function.comp_def,
      fronts, List.map_cons, List.map_nil, List.nil_append]
    cases args <;> rfl

theorem takes_annotations_none (other : (tokens more).head? ≠ some (.symbol .atSign)) :
    Takes src (many do
      if ← sees .atSign then return some (← annotation)
      return none) [] more (· = []) := by
  refine takes_many_none ((takes_sees .atSign).look fun found same => ?_)
  subst same
  rw [List.nil_append, beq_eq_false_iff_ne.mpr other]
  exact .pure rfl

theorem takes_typeRefOver {type : Parser TypeRef} {name : String} {args : List TypeArg} {dims : Nat}
    (path : IsPath name)
    (each : ∀ a ∈ args, ∀ more, EndsTypeArg more → Takes src (typeArg type) a.pieces more (· = a))
    (ends : EndsType more) :
    Takes src (typeRefOver type) (TypeRef.pieces ⟨name, args, dims⟩) more
      (· = ⟨name, args, dims⟩) := by
  have dims_angle := head_dimensionPieces dims (by decide) ends.angle
  have dims_path := ends.path.dimensionPieces dims
  obtain ⟨first, others, split, shape⟩ := exists_dottedPieces name
  have names := path.2
  rw [split] at names
  have joined : joinSegments (first :: others) = name := by
    rw [← split]
    exact joinSegments_segments name
  rw [TypeRef.pieces, shape]
  refine (takes_annotations_none (by simp)).look fun _ _ => ?_
  refine (takes_word first).step fun _ same => ?_
  subst same
  cases others with
  | nil =>
    refine (takes_typeArgs? each dims_angle).bind fun given same => ?_
    subst same
    have none : Takes src (many (typeSegment type)) [] (dimensionPieces dims ++ more) (· = []) := by
      refine takes_many_none ((takes_dotName_none dims_path).finish fun found same => ?_)
      subst same
      exact .pure rfl
    refine none.look fun found same => ?_
    subst same
    refine (takes_dimensions dims ends.bracket).finish fun found same => ?_
    subst same
    refine .pure ?_
    rw [List.map_nil, List.map_nil, joined]
    cases args <;> rfl
  | cons s others =>
    have noArgs : Takes src (typeArgs? type) [] ((s :: others).flatMap segmentPieces ++
        (TypeArg.listPieces args ++ dimensionPieces dims) ++ more) (· = givenArgs []) :=
      @takes_typeArgs? _ _ type [] nofun nofun
    refine noArgs.look fun given same => ?_
    subst same
    rw [← List.append_assoc]
    refine (takes_typeSegments (List.cons_ne_nil _ _) names each dims_angle dims_path).bind
      fun found known => ?_
    refine (takes_dimensions dims ends.bracket).finish fun found same => ?_
    subst same
    refine .pure ?_
    obtain ⟨names, last⟩ := known
    rw [names, joined]
    exact congrArg (TypeRef.mk name · _) last

mutual
/-- A type is read with as many levels of arguments as it has tokens. -/
theorem takes_typeRefWithin {depth : Nat} : (t : TypeRef) → t.Worded →
    (tokens t.pieces).length ≤ depth →
    ∀ {more}, EndsType more → Takes src (typeRefWithin depth) t.pieces more (· = t)
  | ⟨name, args, dims⟩, worded, enough, more, ends => by
    rw [TypeRef.Worded, TypeRef.names] at worded
    obtain ⟨first, others, _, shape⟩ := exists_dottedPieces name
    rw [TypeRef.pieces, shape, tokens_append, tokens_append, tokens_word] at enough
    simp only [List.length_append, List.length_cons] at enough
    cases depth with
    | zero => omega
    | succ depth =>
      refine takes_typeRefOver (worded name List.mem_cons_self) (fun a member more ends => ?_) ends
      exact takes_typeArgs args (fun name member => worded name (List.mem_cons_of_mem _ member))
        (by omega) a member ends

theorem takes_typeArg {depth : Nat} : (a : TypeArg) → (∀ name ∈ a.names, IsPath name) →
    (tokens a.pieces).length ≤ depth → ∀ {more}, EndsTypeArg more →
      Takes src (typeArg (typeRefWithin depth)) a.pieces more (· = a)
  | .type t, worded, enough, more, ends => by
    obtain ⟨first, head⟩ := head_tokens_typeRef t
    refine (takes_accept_none (by rw [TypeArg.pieces, head]; simp)).look fun _ same => ?_
    subst same
    refine (takes_typeRefWithin t worded enough ends.endsType).finish fun _ same => ?_
    subst same
    exact .pure rfl
  | .any, _, _, more, ends => by
    refine (takes_accept .question).finish fun _ same => ?_
    subst same
    refine (takes_acceptKeyword_none ?_).finish fun _ same => ?_
    · rcases ends with head | head <;> rw [head] <;> nofun
    subst same
    refine (takes_acceptKeyword_none ?_).finish fun _ same => ?_
    · rcases ends with head | head <;> rw [head] <;> nofun
    subst same
    exact .pure rfl
  | .extending t, worded, enough, more, ends => by
    have inner : (tokens t.pieces).length + 2 ≤ depth := enough
    refine (takes_accept .question).step fun _ same => ?_
    subst same
    refine .gap ((takes_acceptKeyword .extendsWord).step fun _ same => ?_)
    subst same
    refine .gap ((takes_typeRefWithin t worded (by omega) ends.endsType).finish fun _ same => ?_)
    subst same
    exact .pure rfl
  | .superOf t, worded, enough, more, ends => by
    have inner : (tokens t.pieces).length + 2 ≤ depth := enough
    refine (takes_accept .question).step fun _ same => ?_
    subst same
    refine .gap ((takes_acceptKeyword_none (by nofun)).look fun _ same => ?_)
    subst same
    refine (takes_acceptKeyword .superWord).step fun _ same => ?_
    subst same
    refine .gap ((takes_typeRefWithin t worded (by omega) ends.endsType).finish fun _ same => ?_)
    subst same
    exact .pure rfl

theorem takes_typeArgs {depth : Nat} : (args : List TypeArg) →
    (∀ name ∈ TypeArg.namesOfAll args, IsPath name) →
    (tokens (TypeArg.listPieces args)).length ≤ depth → ∀ a ∈ args, ∀ {more}, EndsTypeArg more →
      Takes src (typeArg (typeRefWithin depth)) a.pieces more (· = a)
  | [], _, _ => fun _ member => absurd member List.not_mem_nil
  | a :: as, worded, enough => by
    rw [TypeArg.namesOfAll] at worded
    rw [TypeArg.listPieces, tokens_symbol, tokens_append, tokens_append] at enough
    simp only [List.length_append, List.length_cons] at enough
    intro b member
    cases member with
    | head =>
      exact takes_typeArg a (fun name member => worded name (List.mem_append_left _ member))
        (by omega)
    | tail _ behind =>
      refine takes_typeArgs as (fun name member => worded name (List.mem_append_right _ member))
        ?_ b behind
      -- The list without its first argument is shorter by that and a comma.
      cases as with
      | nil => cases behind
      | cons second as =>
        have comma : (tokens commaPieces).length = 1 := rfl
        rw [TypeArg.morePieces, tokens_append, tokens_append] at enough
        rw [TypeArg.listPieces, tokens_symbol, tokens_append, tokens_append]
        simp only [List.length_append, List.length_cons, comma] at enough ⊢
        omega
end

theorem takes_typeRef {t : TypeRef} (worded : t.Worded) (ends : EndsType more) :
    Takes src typeRef t.pieces more (· = t) := by
  refine ⟨fun here => ?_⟩
  rw [typeRef, on_bind_of_ok on_get]
  refine (takes_typeRefWithin t worded ?_ ends).take here
  rw [here.length, tokens_append, List.length_append]
  omega

end Types

end CreatorSynth.Parser
