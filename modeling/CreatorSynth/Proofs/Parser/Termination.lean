import CreatorSynth.Proofs.Parser.Contained

/-! The parser ends. Its loops and the parsers that call themselves run with a bound, one more than
there are tokens ahead, and no bound is ever used up: a loop takes a token before it goes round
again, and a parser calls itself only behind a token. -/
namespace CreatorSynth

namespace Parser

section Alike

variable {α β : Type} {n : Nat} {p q : Parser α} {f g : α → Parser β}

/-- Two parsers that answer the same wherever fewer than `n` tokens are ahead. -/
structure Alike (n : Nat) (p q : Parser α) : Prop where
  on_eq : ∀ {src c}, c.rest.length < n → p.on src c = q.on src c

theorem Alike.refl (n : Nat) (p : Parser α) : Alike n p p :=
  ⟨fun _ => rfl⟩

theorem Alike.bind [Onward p] (first : Alike n p q) (second : ∀ a, Alike n (f a) (g a)) :
    Alike n (p >>= f) (q >>= g) where
  on_eq {src c} few := by
    rw [on_bind, on_bind, ← first.on_eq few]
    cases run : p.on src c with
    | error e => rfl
    | ok found =>
      have onward := Onward.length_le run
      exact (second found.1).on_eq (by omega)

theorem Alike.before [Onward p] (second : ∀ a, Alike n (f a) (g a)) :
    Alike n (p >>= f) (p >>= g) :=
  .bind (.refl n p) second

theorem Alike.after [eats : ∀ src, Eats src p] (second : ∀ a, Alike n (f a) (g a)) :
    Alike (n + 1) (p >>= f) (p >>= g) where
  on_eq {src c} few := by
    rw [on_bind, on_bind]
    cases run : p.on src c with
    | error e => rfl
    | ok found =>
      have less := (eats src).eats run
      exact (second found.1).on_eq (by omega)

theorem Alike.ite {condition : Prop} [Decidable condition] {p' q' : Parser α}
    (yes : Alike n p q) (no : Alike n p' q') :
    Alike n (if condition then p else p') (if condition then q else q') := by
  split
  · exact yes
  · exact no

theorem Alike.repeatWithin {step step' : Parser (Option α)} [Onward step] (bound : Nat)
    (same : Alike n step step') :
    Alike n (repeatWithin step bound) (repeatWithin step' bound) := by
  induction bound with
  | zero => exact .refl n _
  | succ bound ih =>
    refine Alike.bind same fun found => ?_
    cases found with
    | none => exact .refl n _
    | some a => exact Alike.bind ih fun _ => .refl n _

theorem Alike.many {step step' : Parser (Option α)} [Onward step] (same : Alike n step step') :
    Alike n (many step) (many step') :=
  Alike.before fun _ => Alike.repeatWithin _ same

theorem Alike.separated [Onward p] (s : Symbol) (same : Alike n p q) :
    Alike n (separated s p) (separated s q) := by
  refine Alike.bind same fun first => Alike.bind (Alike.many ?_) fun _ => .refl n _
  refine Alike.before fun found => Alike.ite ?_ (.refl n _)
  exact Alike.bind same fun _ => .refl n _

end Alike

section Recursion

variable {ι α : Type}

/-- A way of parsing that calls a parser only where fewer tokens are ahead than where it began. -/
structure Descends (F : (ι → Parser α) → ι → Parser α) : Prop where
  onward : ∀ {p}, (∀ i, Onward (p i)) → ∀ i, Onward (F p i)
  alike : ∀ {n p q}, (∀ i, Onward (p i)) → (∀ i, Onward (q i)) → (∀ i, Alike n (p i) (q i)) →
    ∀ i, Alike (n + 1) (F p i) (F q i)

/-- The parsers that call themselves in that way, without a bound. -/
structure Recursion (F : (ι → Parser α) → ι → Parser α) (R : ι → Parser α) : Prop where
  unfolds : ∀ {src c} i, (R i).on src c = (F R i).on src c
  descends : Descends F
  onward : ∀ i, Onward (R i)

/-- The calls down to some depth, with other parsers from there on. -/
def unrolled (F : (ι → Parser α) → ι → Parser α) (stuck : ι → Parser α) : Nat → ι → Parser α
  | 0 => stuck
  | depth + 1 => F (unrolled F stuck depth)

variable {F : (ι → Parser α) → ι → Parser α} {R stuck other : ι → Parser α}

theorem Descends.onward_unrolled (descends : Descends F) (onward : ∀ i, Onward (stuck i))
    (depth : Nat) : ∀ i, Onward (unrolled F stuck depth i) := by
  induction depth with
  | zero => exact onward
  | succ depth ih => exact descends.onward ih

/-- What would be done below the depth makes no difference where fewer tokens are ahead. -/
theorem Descends.unrolled_alike (descends : Descends F) (onward : ∀ i, Onward (stuck i))
    (onward' : ∀ i, Onward (other i)) (depth : Nat) :
    ∀ i, Alike depth (unrolled F stuck depth i) (unrolled F other depth i) := by
  induction depth with
  | zero => exact fun i => ⟨nofun⟩
  | succ depth ih =>
    exact descends.alike (descends.onward_unrolled onward depth)
      (descends.onward_unrolled onward' depth) ih

theorem unrolled_add (F : (ι → Parser α) → ι → Parser α) (stuck : ι → Parser α)
    (depth more : Nat) :
    unrolled F stuck (depth + more) = unrolled F (unrolled F stuck more) depth := by
  induction depth with
  | zero => rw [Nat.zero_add, unrolled]
  | succ depth ih => rw [Nat.succ_add, unrolled, ih, unrolled]

/-- Parsers that go down as deep as there are tokens call themselves without a bound. -/
theorem Recursion.of_unrolled (stuck : ι → Parser α) (descends : Descends F)
    (onward : ∀ i, Onward (stuck i)) (onward' : ∀ i, Onward (R i))
    (bounded : ∀ {src c} i, (R i).on src c = (unrolled F stuck (c.rest.length + 1) i).on src c) :
    Recursion F R where
  onward := onward'
  descends := descends
  unfolds := by
    intro src c i
    have below : ∀ i, Alike c.rest.length (unrolled F stuck c.rest.length i) (R i) := by
      refine fun i => ⟨fun {src c'} few => ?_⟩
      obtain ⟨more, deeper⟩ := Nat.exists_eq_add_of_lt few
      have deep : c.rest.length = c'.rest.length + 1 + more := by omega
      have here : (R i).on src c' = _ := bounded i
      rw [here, deep, unrolled_add]
      have same := descends.unrolled_alike onward (descends.onward_unrolled onward more)
      exact ((same _ i).on_eq (Nat.lt_succ_self _)).symm
    rw [bounded i]
    have same := descends.alike (descends.onward_unrolled onward _) onward' below i
    exact same.on_eq (Nat.lt_succ_self _)

/-- As deep as there are tokens nothing is left to be done below. -/
theorem Recursion.on_unrolled (recursion : Recursion F R) (onward : ∀ i, Onward (stuck i))
    (depth : Nat) : ∀ i, Alike depth (R i) (unrolled F stuck depth i) := by
  induction depth with
  | zero => exact fun i => ⟨nofun⟩
  | succ depth ih =>
    refine fun i => ⟨fun {src c} few => ?_⟩
    rw [recursion.unfolds i]
    have same := recursion.descends.alike recursion.onward
      (recursion.descends.onward_unrolled onward depth) ih i
    exact same.on_eq few

end Recursion

section Loops

variable {α β : Type}

/-- A step of a loop whose answers take a token each. -/
class Paced (step : Parser (Option α)) : Prop where
  shorter : ∀ {src c a c'}, step.on src c = .ok (some a, c') → c'.rest.length < c.rest.length

def round (step : Parser (Option α)) (behind : Parser (List α)) : Parser (List α) := do
  match ← step with
  | none => return []
  | some a => return a :: (← behind)

theorem descends_round (step : Parser (Option α)) [Onward step] [Paced step] :
    Descends fun (behind : Unit → Parser (List α)) _ => round step (behind ()) where
  onward := by
    intro p onward _
    have := onward ()
    refine @Onward.bind _ _ _ _ _ fun found => ?_
    split <;> infer_instance
  alike := by
    intro n p q _ _ same _
    refine ⟨fun {src c} few => ?_⟩
    rw [round, round, on_bind, on_bind]
    cases run : step.on src c with
    | error e => rfl
    | ok found =>
      obtain ⟨_ | a, mid⟩ := found
      · rfl
      · have less : mid.rest.length < c.rest.length := Paced.shorter run
        have behind : Alike n (do return a :: (← p ())) (do return a :: (← q ())) :=
          .bind (same ()) fun _ => .refl n _
        have fewer : mid.rest.length < n := by omega
        exact behind.on_eq fewer

theorem repeatWithin_eq_unrolled (step : Parser (Option α)) (bound : Nat) :
    repeatWithin step bound =
      unrolled (fun behind _ => round step (behind ())) (fun _ => throw .fault) bound () := by
  induction bound with
  | zero => rfl
  | succ bound ih =>
    rw [repeatWithin, ih]
    rfl

theorem recursion_many (step : Parser (Option α)) [Onward step] [Paced step] :
    Recursion (fun behind _ => round step (behind ())) fun _ : Unit => many step :=
  .of_unrolled _ (descends_round step) (fun _ => .throw _) (fun _ => inferInstance) fun _ => by
    rw [many, on_bind_of_ok on_get, repeatWithin_eq_unrolled]

/-- The loop without a bound. Each iteration takes a token, or else the loop stops or fails. -/
def Iterates (step : Parser (Option α)) : Prop :=
  ∀ src c, match step.on src c with
    | .error e => (many step).on src c = .error e
    | .ok (none, c') => (many step).on src c = .ok ([], c')
    | .ok (some a, mid) => mid.rest.length < c.rest.length ∧
        (many step).on src c = ((many step).on src mid).map fun found => (a :: found.1, found.2)

theorem iterates (step : Parser (Option α)) [Onward step] [Paced step] : Iterates step := by
  intro src c
  have unfolds : (many step).on src c = (round step (many step)).on src c :=
    (recursion_many step).unfolds ()
  rw [round, on_bind] at unfolds
  cases run : step.on src c with
  | error e => rwa [run] at unfolds
  | ok found =>
    obtain ⟨_ | a, mid⟩ := found
    · rwa [run] at unfolds
    · refine ⟨Paced.shorter run, ?_⟩
      rw [unfolds, run]
      simp only [Except.bind, on_bind, on_pure]
      cases (many step).on src mid <;> rfl

variable {p q : Parser (Option α)} {f : β → Parser (Option α)}

instance Paced.none : Paced (pure none : Parser (Option α)) where
  shorter run := by cases run

instance Paced.throw (e : ParseError) : Paced (throw e : Parser (Option α)) where
  shorter run := by cases run

instance Paced.ite {condition : Prop} [Decidable condition] [Paced p] [Paced q] :
    Paced (if condition then p else q) := by
  split <;> assumption

instance Paced.right {r : Parser β} [Onward r] [more : ∀ b, Paced (f b)] : Paced (r >>= f) where
  shorter run := by
    obtain ⟨b, mid, first, second⟩ := on_bind_eq_ok.mp run
    have before := Onward.length_le first
    have behind := (more b).shorter second
    omega

instance (priority := low) Paced.of_eats [eats : ∀ src, Eats src p] : Paced p where
  shorter := fun {src _ _ _} run => (eats src).eats run

theorem Paced.acceptToken {t : Token} {f : Bool → Parser (Option α)} [Onward (f true)]
    [no : Paced (f false)] : Paced (acceptToken t >>= f) where
  shorter run := by
    obtain ⟨b, mid, first, second⟩ := on_bind_eq_ok.mp run
    rw [on_acceptToken] at first
    split at first
    · rename_i head
      cases first
      have before := next_length_of_head head
      have behind := Onward.length_le second
      omega
    · cases first
      exact no.shorter second

instance (s : Symbol) (item : Parser α) [Onward item] :
    Paced do
      if ← accept s then return some (← item)
      return none := by
  refine @Paced.acceptToken _ _ _ inferInstance ?_
  exact Paced.none

theorem shorter_of_advance {src : Source} {c c' : Cursor} {t : Token} {r : Parser β} {b : β}
    [Onward r] (head : c.rest.head?.map (·.token) = some t)
    (run : (advance >>= fun _ => r).on src c = .ok (b, c')) : c'.rest.length < c.rest.length := by
  rw [on_bind_of_ok on_advance] at run
  have taken := next_length_of_head head
  have behind := Onward.length_le run
  omega

instance : Paced dotName where
  shorter run := by
    rw [dotName, on_bind_of_ok (on_upcoming 2)] at run
    split at run
    · rename_i next
      exact shorter_of_advance (head_of_upcoming next).1 run
    · cases run

instance : Paced modifier where
  shorter run := by
    rw [modifier, on_bind_of_ok (on_upcoming 2)] at run
    unfold modifierFrom at run
    split at run
    · cases run
    · obtain ⟨_, _, mark, same⟩ := on_bind_eq_ok.mp run
      cases same
      exact Eats.eats mark
    · rename_i next
      split at run
      · exact shorter_of_advance (head_of_upcoming next).1 run
      · cases run
    · cases run

instance : Paced do
    if ← sees .atSign then return some (← annotation)
    return none := by
  infer_instance

instance : Paced dimension where
  shorter run := by
    rw [dimension, on_bind_of_ok (on_upcoming 2)] at run
    split at run
    · rename_i next
      exact shorter_of_advance (head_of_upcoming next).1 run
    · cases run

instance (type : Parser TypeRef) [Onward type] : Paced (typeSegment type) where
  shorter run := by
    obtain ⟨found, mid, first, run⟩ := on_bind_eq_ok.mp run
    cases found with
    | none => cases run
    | some name =>
      have taken := Paced.shorter first
      have behind := Onward.length_le run
      omega

instance : Paced nextDeclarator := by
  refine @Paced.acceptToken _ _ _ inferInstance ?_
  exact Paced.none

theorem statement_eats {src : Source} {c c' : Cursor} {t : Token} {found : Option Statement}
    (head : c.rest.head?.map (·.token) = some t) (inner : t ≠ .symbol .rbrace)
    (run : statement.on src c = .ok (found, c')) : c'.rest.length < c.rest.length := by
  rw [statement, on_bind_of_ok on_nextStart] at run
  obtain ⟨ended, mid, first, run⟩ := on_bind_eq_ok.mp run
  rw [on_accept] at first
  split at first
  · rename_i semicolon
    cases first
    cases run
    exact next_length_of_head semicolon
  · rename_i open'
    cases first
    rw [if_neg Bool.false_ne_true, on_bind_of_ok (on_upcoming 5)] at run
    obtain ⟨_, _, read, same⟩ := on_bind_eq_ok.mp run
    cases same
    rw [head] at open'
    exact statementFrom_eats _ head (fun same => open' (congrArg some same)) inner read

instance : Paced blockStep where
  shorter {src c a c'} run := by
    rw [blockStep, on_bind_of_ok (on_sees _)] at run
    split at run
    · cases run
    · rename_i inner
      obtain ⟨_, mid, more, run⟩ := on_bind_eq_ok.mp run
      obtain ⟨_, _, read, same⟩ := on_bind_eq_ok.mp run
      cases same
      rw [on_expectMore] at more
      split at more
      · cases more
      · rename_i left
        cases more
        obtain ⟨t, rest, begins⟩ := List.exists_cons_of_ne_nil left
        have head : c.rest.head?.map (·.token) = some t.token := by rw [begins]; rfl
        refine statement_eats head (fun brace => inner ?_) read
        rw [head, brace, beq_self_eq_true]

instance (members : Parser (List Member)) [Onward members] [∀ src, Eats src members] :
    Paced (classStep members) := by
  unfold classStep
  infer_instance

instance : Paced unitStep := by
  unfold unitStep
  infer_instance

end Loops

section Types

variable {n : Nat} {type type' : Parser TypeRef} [Onward type]

theorem Alike.typeArg (same : Alike n type type') :
    Alike n (typeArg type) (Parser.typeArg type') := by
  refine Alike.before fun wild => Alike.ite ?_ (same.bind fun _ => .refl n _)
  refine Alike.before fun upper => Alike.ite (same.bind fun _ => .refl n _) ?_
  exact Alike.before fun lower => Alike.ite (same.bind fun _ => .refl n _) (.refl n _)

theorem Alike.typeArgs? (same : Alike n type type') :
    Alike n (typeArgs? type) (Parser.typeArgs? type') := by
  refine Alike.before fun opened => Alike.ite ?_ (.refl n _)
  refine Alike.before fun closed => Alike.ite (.refl n _) ?_
  exact (same.typeArg.separated .comma).bind fun _ => .refl n _

theorem Alike.typeSegment (same : Alike n type type') :
    Alike n (typeSegment type) (Parser.typeSegment type') := by
  refine Alike.before fun found => ?_
  cases found with
  | none => exact .refl n _
  | some name => exact same.typeArgs?.bind fun _ => .refl n _

theorem descends_typeRefOver :
    Descends fun (type : Unit → Parser TypeRef) _ => typeRefOver (type ()) where
  onward := by
    intro p onward _
    have := onward ()
    infer_instance
  alike := by
    intro n p q onward _ same _
    have := onward ()
    -- the first name is taken before any of the types inside
    refine Alike.before fun _ => Alike.after fun _ => ?_
    refine (same ()).typeArgs?.bind fun _ => ?_
    exact (same ()).typeSegment.many.bind fun _ => .refl n _

theorem recursion_typeRef :
    Recursion (fun type _ => typeRefOver (type ())) fun _ : Unit => typeRef := by
  refine .of_unrolled (fun _ => throw .fault) descends_typeRefOver (fun _ => .throw _)
    (fun _ => inferInstance) fun {src c} _ => ?_
  have within : ∀ depth, typeRefWithin depth =
      unrolled (fun type _ => typeRefOver (type ())) (fun _ => throw .fault) depth () := by
    intro depth
    induction depth with
    | zero => rfl
    | succ depth ih => rw [typeRefWithin, ih, unrolled]
  rw [typeRef, on_bind_of_ok on_get, within]

end Types

section Lists

/-- The constants of an enum, given the parser of those behind the first. -/
def constantsOver (others : Parser (List Member)) : Parser (List Member) := do
  if ← accept .semicolon then return []
  if ← sees .rbrace then return []
  let constant ← enumConstant
  if ← accept .comma then return constant :: (← others)
  endConstants
  return [constant]

def constants : Parser (List Member) := do
  enumConstantsWithin ((← get).rest.length + 1)

theorem descends_constantsOver :
    Descends fun (others : Unit → Parser (List Member)) _ => constantsOver (others ()) where
  onward := by
    intro p onward _
    have := onward ()
    unfold constantsOver
    infer_instance
  alike := by
    intro n p q onward _ same _
    have := onward ()
    refine Alike.before fun ended => Alike.ite (.refl _ _) ?_
    refine Alike.before fun closed => Alike.ite (.refl _ _) ?_
    refine Alike.after fun constant => Alike.before fun further => Alike.ite ?_ (.refl n _)
    exact (same ()).bind fun _ => .refl n _

theorem recursion_constants :
    Recursion (fun others _ => constantsOver (others ())) fun _ : Unit => constants := by
  refine .of_unrolled (fun _ => throw .fault) descends_constantsOver (fun _ => .throw _)
    (fun _ => ?_) fun {src c} _ => ?_
  · unfold constants
    infer_instance
  have within : ∀ bound, enumConstantsWithin bound =
      unrolled (fun others _ => constantsOver (others ())) (fun _ => throw .fault) bound () := by
    intro bound
    induction bound with
    | zero => rfl
    | succ bound ih =>
      rw [enumConstantsWithin, ih]
      rfl
  rw [constants, on_bind_of_ok on_get, within]

theorem enumConstants_eq :
    enumConstants = do
      let found ← constants
      closeDocs
      return found := by
  simp only [enumConstants, constants, bind_assoc]

/-- What follows the first name of an import, given the parser of what follows the next. -/
def importTailOver (further : Parser (List String × Bool)) : Parser (List String × Bool) := do
  if ← accept .dot then
    if ← acceptToken (.operator '*') then return ([], true)
    let segment ← identifier
    let (segments, onDemand) ← further
    return (segment :: segments, onDemand)
  return ([], false)

theorem descends_importTailOver :
    Descends fun (further : Unit → Parser (List String × Bool)) _ =>
      importTailOver (further ()) where
  onward := by
    intro p onward _
    have := onward ()
    unfold importTailOver
    infer_instance
  alike := by
    intro n p q onward _ same _
    have := onward ()
    refine Alike.before fun dot => Alike.ite ?_ (.refl _ _)
    refine Alike.before fun star => Alike.ite (.refl _ _) ?_
    exact Alike.after fun segment => (same ()).bind fun _ => .refl n _

theorem recursion_importTail :
    Recursion (fun further _ => importTailOver (further ())) fun _ : Unit => importTail := by
  refine .of_unrolled (fun _ => throw .fault) descends_importTailOver (fun _ => .throw _)
    (fun _ => inferInstance) fun {src c} _ => ?_
  have within : ∀ bound, importTailWithin bound =
      unrolled (fun further _ => importTailOver (further ())) (fun _ => throw .fault) bound () := by
    intro bound
    induction bound with
    | zero => rfl
    | succ bound ih =>
      rw [importTailWithin, ih]
      rfl
  rw [importTail, on_bind_of_ok on_get, within]

end Lists

section Classes

/-- What is known of a class in front of its head: its modifiers, where it begins, and its
documentation. -/
abbrev Preface := Modifiers × Nat × Option String

/-- A class behind its modifiers, given the parser of nested classes. -/
def classBehind (nested : Preface → Parser ClassId) (before : Preface) : Parser ClassId :=
  classOver (memberOver fun modifiers start doc => nested (modifiers, start, doc)) before.1
    before.2.1 before.2.2

variable {n : Nat} {nested nested' : Modifiers → Nat → Option String → Parser ClassId}
  [∀ modifiers start doc, Onward (nested modifiers start doc)]

theorem Alike.memberOver (same : ∀ modifiers start doc,
    Alike n (nested modifiers start doc) (nested' modifiers start doc)) (className : String) :
    Alike n (memberOver nested className) (Parser.memberOver nested' className) := by
  refine Alike.before fun start => Alike.before fun ended => Alike.ite (.refl n _) ?_
  refine Alike.before fun block => ?_
  cases block with
  | some block => exact .refl n _
  | none =>
    refine Alike.before fun doc => Alike.before fun modifiers => Alike.before fun next => ?_
    exact Alike.ite ((same _ _ _).bind fun _ => .refl n _) (.refl n _)

theorem Alike.bracedBody {members members' : Parser (List Member)} [Onward members]
    (kind : ClassKind) (same : Alike n members members') :
    Alike n (bracedBody kind members) (Parser.bracedBody kind members') := by
  have step : Alike n (classStep members) (classStep members') :=
    Alike.before fun closed => Alike.ite (.refl n _)
      (Alike.before fun _ => same.bind fun _ => .refl n _)
  have body : Alike n (classBody kind members) (classBody kind members') :=
    Alike.before fun constants => step.many.bind fun _ => .refl n _
  exact Alike.before fun start => Alike.before fun _ => Alike.before fun _ =>
    body.bind fun _ => .refl n _

theorem descends_classBehind : Descends classBehind where
  onward := by
    intro p onward before
    unfold classBehind
    infer_instance
  alike := by
    intro n p q onward _ same before
    -- the head of the class is taken before any class inside
    refine Alike.after fun head => ?_
    have members := Alike.memberOver (fun modifiers start doc => same (modifiers, start, doc))
      head.name
    exact (members.bracedBody head.kind).bind fun _ => .refl n _

theorem recursion_classDecl :
    Recursion classBehind fun before => classDecl before.1 before.2.1 before.2.2 := by
  refine .of_unrolled (fun _ => throw .fault) descends_classBehind (fun _ => .throw _)
    (fun _ => inferInstance) fun {src c} before => ?_
  have within : ∀ depth,
      (fun before : Preface => classWithin depth before.1 before.2.1 before.2.2) =
        unrolled classBehind (fun _ => throw .fault) depth := by
    intro depth
    induction depth with
    | zero => rfl
    | succ depth ih =>
      rw [unrolled, ← ih]
      rfl
  rw [classDecl, on_bind_of_ok on_get, ← within]

end Classes

end Parser

/-- The cursor stands behind more than the first `pos` of the tokens. -/
def Cursor.Beyond (tokens : List Located) (pos : Nat) (c : Cursor) : Prop :=
  ∃ next, pos < next ∧ next ≤ tokens.length ∧ c.rest = tokens.drop next

namespace Parser

section Positions

variable {α : Type} {p : Parser α} [Onward p] {src : Source} {c c' : Cursor} {a : α}
  {tokens : List Located} {pos : Nat}

theorem beyond_of_shorter (stands : c.rest = tokens.drop pos) (run : p.on src c = .ok (a, c'))
    (shorter : c'.rest.length < c.rest.length) : c'.Beyond tokens pos := by
  obtain ⟨taken, moves⟩ := Onward.onward run
  have behind : c'.rest <:+ c.rest := ⟨taken, moves.rest.symm⟩
  have inside : c'.rest <:+ tokens := behind.trans (stands ▸ List.drop_suffix pos tokens)
  have lengths := inside.length_le
  rw [stands, List.length_drop] at shorter
  exact ⟨tokens.length - c'.rest.length, by omega, Nat.sub_le _ _,
    List.suffix_iff_eq_drop.mp inside⟩

theorem Eats.beyond [Eats src p] (stands : c.rest = tokens.drop pos)
    (run : p.on src c = .ok (a, c')) : c'.Beyond tokens pos :=
  beyond_of_shorter stands run (Eats.eats run)

end Positions

/-- Behind the first `pos` of the tokens, parsers that succeed go on, and not past the last one. A
statement is read only where the block does not end. -/
structure GoesOn (src : Source) (tokens : List Located) (pos : Nat) (c : Cursor) : Prop where
  member : ∀ {className members c'}, (member className).on src c = .ok (members, c') →
    c'.Beyond tokens pos
  statement : ∀ {t found c'}, tokens[pos]? = some t → t.token ≠ .symbol .rbrace →
    statement.on src c = .ok (found, c') → c'.Beyond tokens pos
  typeRef : ∀ {type c'}, typeRef.on src c = .ok (type, c') → c'.Beyond tokens pos
  classDecl : ∀ {modifiers start doc id c'},
    (classDecl modifiers start doc).on src c = .ok (id, c') → c'.Beyond tokens pos
  item : ∀ {found c'}, item.on src c = .ok (found, c') → c'.Beyond tokens pos
  group : ∀ {opening closing span c'}, (group opening closing).on src c = .ok (span, c') →
    c'.Beyond tokens pos
  callArgs : ∀ {args c'}, callArgs.on src c = .ok (args, c') → c'.Beyond tokens pos

theorem goesOn {src : Source} {tokens : List Located} {pos : Nat} {c : Cursor}
    (stands : c.rest = tokens.drop pos) : GoesOn src tokens pos c where
  member := Eats.beyond stands
  statement := by
    intro t found c' next inner run
    have head : c.rest.head?.map (·.token) = some t.token := by
      rw [stands, List.head?_drop, next, Option.map_some]
    exact beyond_of_shorter stands run (statement_eats head inner run)
  typeRef := Eats.beyond stands
  classDecl := Eats.beyond stands
  item := Eats.beyond stands
  group := Eats.beyond stands
  callArgs := Eats.beyond stands

/-- Loops take a token in each iteration, stop or fail; parsers that call themselves do so behind a
token; and scanners go over tokens one by one. None of them is held up by a bound. -/
structure Ends : Prop where
  unit : Iterates unitStep
  classBody : ∀ className, Iterates (classStep (member className))
  block : Iterates blockStep
  fields : Iterates nextDeclarator
  modifiers : Iterates modifier
  annotations : Iterates do
    if ← sees .atSign then return some (← annotation)
    return none
  names : Iterates dotName
  segments : Iterates (typeSegment typeRef)
  dimensions : Iterates dimension
  lists : ∀ {α : Type} (separator : Symbol) (item : Parser α) [Onward item], Iterates do
    if ← accept separator then return some (← item)
    return none
  constants : Recursion (fun others _ => constantsOver (others ())) fun _ : Unit => constants
  imports : Recursion (fun further _ => importTailOver (further ())) fun _ : Unit => importTail
  types : Recursion (fun type _ => typeRefOver (type ())) fun _ : Unit => typeRef
  classes : Recursion classBehind fun before => classDecl before.1 before.2.1 before.2.2
  expressions : ∀ {src : Source} {depth passed ts found},
    src.passExpression depth passed ts = .ok found → Passes ts passed found
  initializers : ∀ {src : Source} {depth angles previous passed ts found},
    src.passInitializer depth angles previous passed ts = .ok found → Passes ts passed found
  statements : ∀ {src : Source} {depth passed ts found},
    src.passStatement depth passed ts = .ok found → Passes ts passed found.2

theorem ends : Ends where
  unit := iterates _
  classBody _ := iterates _
  block := iterates _
  fields := iterates _
  modifiers := iterates _
  annotations := iterates _
  names := iterates _
  segments := iterates _
  dimensions := iterates _
  lists _ _ := iterates _
  constants := recursion_constants
  imports := recursion_importTail
  types := recursion_typeRef
  classes := recursion_classDecl
  expressions := passExpression_passes
  initializers := passInitializer_passes
  statements := passStatement_passes

/-- Whatever the tokens are and wherever it stands among them, the parser goes on and ends. -/
theorem goes_on_and_ends :
    (∀ (src : Source) (tokens : List Located) (pos : Nat) (c : Cursor),
      c.rest = tokens.drop pos → GoesOn src tokens pos c) ∧ Ends :=
  ⟨fun _ _ _ _ stands => goesOn stands, ends⟩

def fieldTokens : List Located :=
  [⟨.name "int", 0, 3⟩, ⟨.name "x", 4, 5⟩, ⟨.symbol .semicolon, 5, 6⟩]

theorem field_goes_on :
    let src : Source := ⟨"int x;".toList, .java, [], 6⟩
    let field : Member := .field ⟨.empty, .simple "int", "x", none, none, ⟨0, 6⟩⟩
    (member "A").on src ⟨fieldTokens, 0, 0, []⟩ = .ok ([field], ⟨[], 6, 6, []⟩) ∧
      Cursor.Beyond fieldTokens 0 ⟨[], 6, 6, []⟩ := by
  intro src field
  have read : (member "A").on src ⟨fieldTokens, 0, 0, []⟩ = .ok ([field], ⟨[], 6, 6, []⟩) := rfl
  exact ⟨read, (goes_on_and_ends.1 src fieldTokens 0 _ rfl).member read⟩

end Parser

end CreatorSynth
