import CreatorSynth.Proofs.Parser.Errors
import CreatorSynth.Proofs.Parser.Placing
import CreatorSynth.Proofs.Parser.Unbroken

/-! What is accepted in Java is accepted in Groovy, with the same answer, as long as no line ends
in a text that is kept or in the default value of an annotation element. -/
namespace CreatorSynth
open Text Located CreatorSynth.Parser

section Stretches

/-- The value of an assignment, or a statement that is kept as text. -/
def Statement.raw? : Statement → Option String
  | assign _ _ value _ => some value
  | other text _ => some text
  | superCall _ _ | thisCall _ _ => none

/-- No line ends in the text that is kept of a statement. -/
def Statement.Kept (s : Statement) : Prop :=
  ∀ text ∈ s.raw?, Unbroken noAngles text

instance (s : Statement) : Decidable s.Kept :=
  inferInstanceAs (Decidable (∀ text ∈ s.raw?, _))

namespace Parser

/-- A default value and the word in front of it, if they come next. -/
def defaultClause : Parser (Option String) := do
  if ← acceptWord "default" then return some (← expression)
  return none

/-- The default value of an annotation element, from its parameters on. -/
def defaultValue? : Parser (Option String) := do
  let _ ← params
  let _ ← dimensions
  let _ ← throwsClause
  defaultClause

/-- No line ends in the text the parser answers at the cursor, if it answers one. -/
def AnswersUnbroken (p : Parser (Option String)) (src : Source) (c : Cursor) : Prop :=
  ∀ text c', p.on src c = .ok (some text, c') → Unbroken noAngles text

theorem AnswersUnbroken.behind {α : Type} {p : Parser α} {f : α → Parser (Option String)}
    {src : Source} {c mid : Cursor} {a : α} (known : AnswersUnbroken (p >>= f) src c)
    (first : p.on src c = .ok (a, mid)) : AnswersUnbroken (f a) src mid :=
  fun text c' run => known text c' ((on_bind_of_ok first).trans run)

theorem AnswersUnbroken.of_run {p : Parser (Option String)} {src : Source} {c c' : Cursor}
    {found : Option String} (run : p.on src c = .ok (found, c'))
    (unbroken : ∀ text ∈ found, Unbroken noAngles text) : AnswersUnbroken p src c := by
  intro text c'' run'
  cases run.symm.trans run'
  exact unbroken text rfl

end Parser

namespace Member

def initializer? : Member → Option String
  | field decl => decl.initializer
  | _ => none

def statements : Member → List Statement
  | constructor decl | method decl => (decl.body.map (·.statements)).getD []
  | field _ | nested .. | constant _ | initializer .. => []

/-- The default value of a member, if it is an annotation element, from behind its modifiers on. -/
def defaultValue? : Member → Parser (Option String)
  | constructor _ => do
      let _ ← Parser.typeParams
      let _ ← identifier
      Parser.defaultValue?
  | method _ => do
      let _ ← Parser.typeParams
      let _ ← typeRef
      let _ ← identifier
      Parser.defaultValue?
  | field _ | nested .. | constant _ | initializer .. => return none

/-- No line ends in a text that is kept of the member. -/
structure Kept (m : Member) : Prop where
  initializer : ∀ text ∈ m.initializer?, Unbroken Token.nestAngles text
  statements : ∀ s ∈ m.statements, s.Kept

instance (m : Member) : Decidable m.Kept :=
  decidable_of_iff ((∀ text ∈ m.initializer?, CreatorSynth.Unbroken Token.nestAngles text) ∧
    ∀ s ∈ m.statements, s.Kept) ⟨fun kept => ⟨kept.1, kept.2⟩, fun kept => ⟨kept.1, kept.2⟩⟩

/-- No line ends in a text that is kept of the member, nor in the default value that is read from
where it begins. -/
structure Unbroken (src : Source) (tokens : List Located) (m : Member) : Prop extends m.Kept where
  default : ∀ c : Cursor, c.rest = tokens.filter (fun t => decide (m.span.start ≤ t.start)) →
    AnswersUnbroken (do
      let _ ← modifiers
      m.defaultValue?) src c

end Member

def ClassDecl.Unbroken (src : Source) (tokens : List Located) (c : ClassDecl) : Prop :=
  ∀ m ∈ c.members, m.Unbroken src tokens

end Stretches

namespace Parser

/-- Where its answer is such a one, a parser answers in Groovy what it answers in Java. -/
structure Agrees {α : Type} (src : Source) (tokens : List Located) (good : α → Cursor → Prop)
    (p : Parser α) : Prop where
  groovy : ∀ {c a c'}, c.rest <:+ tokens → p.on src c = .ok (a, c') → good a c' →
    p.on src.inGroovy c = .ok (a, c')

namespace Agrees

variable {α β : Type} {src : Source} {tokens : List Located} {p : Parser α} {f : α → Parser β}
  {before : α → Cursor → Prop} {good : β → Cursor → Prop}

/-- Two steps agree if both do and the answer tells about that of the first one. -/
theorem bind [Onward p] (first : Agrees src tokens before p)
    (second : ∀ a, Agrees src tokens good (f a))
    (tells : ∀ {a mid b c'}, (f a).on src mid = .ok (b, c') → good b c' → before a mid) :
    Agrees src tokens good (p >>= f) where
  groovy inside run known := by
    obtain ⟨a, mid, one, two⟩ := on_bind_eq_ok.mp run
    rw [on_bind_of_ok (first.groovy inside one (tells two known))]
    exact (second a).groovy (Onward.suffix inside one) two known

theorem of_tame [lexed : src.Lexed tokens] {good : α → Cursor → Prop} [Tame p] :
    Agrees src tokens good p :=
  ⟨fun _ run _ => Tame.groovy lexed.java run⟩

theorem after [Onward p] (first : Agrees src tokens (fun _ _ => True) p)
    (second : ∀ a, Agrees src tokens good (f a)) : Agrees src tokens good (p >>= f) :=
  first.bind second fun _ _ => trivial

theorem behind [src.Lexed tokens] [Tame p] [Onward p] (second : ∀ a, Agrees src tokens good (f a)) :
    Agrees src tokens good (p >>= f) :=
  after .of_tame second

theorem followed [src.Lexed tokens] [Onward p] (first : Agrees src tokens before p)
    [∀ a, Tame (f a)]
    (tells : ∀ {a mid b c'}, (f a).on src mid = .ok (b, c') → good b c' → before a mid) :
    Agrees src tokens good (p >>= f) :=
  bind first (fun _ => .of_tame) tells

theorem of_eq {good : α → Cursor → Prop} (same : ∀ c, p.on src.inGroovy c = p.on src c) :
    Agrees src tokens good p :=
  ⟨fun _ run _ => (same _).trans run⟩

theorem many {step : Parser (Option α)} [src.Lexed tokens] [Onward step]
    {good : α → Cursor → Prop}
    (each : Agrees src tokens (fun found c => ∀ a ∈ found, good a c) step)
    (earlier : ∀ {a c c'}, c.classes <+: c'.classes → good a c' → good a c) :
    Agrees src tokens (fun as c => ∀ a ∈ as, good a c) (many step) := by
  have bounded (bound : Nat) :
      Agrees src tokens (fun as c => ∀ a ∈ as, good a c) (repeatWithin step bound) := by
    induction bound with
    | zero => exact ⟨fun _ run => nomatch run⟩
    | succ bound ih =>
      refine each.bind (fun found => ?_) ?_
      · cases found with
        | none => exact .of_tame
        | some a =>
          refine ih.followed fun run known b member => ?_
          cases run
          exact known b (List.mem_cons_of_mem _ member)
      · intro found mid as c' run known a member
        cases member
        obtain ⟨others, last, rest, run⟩ := on_bind_eq_ok.mp run
        cases run
        exact earlier (Onward.classes rest) (known a List.mem_cons_self)
  exact .behind fun c => bounded _

end Agrees

section Bodies

variable {src : Source} {tokens : List Located} [lexed : src.Lexed tokens]

/-- A stretch without a line break ends in Groovy where it ends in Java. -/
theorem agrees_passing {α : Type} {count : Angles} {f : Source → Cursor → Except ParseError α}
    {g : α → Source.Passed} {k : α → Option Nat}
    (passes : ∀ {c a}, f src c = .ok a → ∃ taken rest, c.rest = taken ++ rest ∧
      k a = stopOver none taken ∧
      (src.Calm count 0 0 none none taken → f src.inGroovy c = .ok a)) :
    Agrees src tokens (fun text _ => Unbroken count text) (do
      let start ← nextStart
      let src ← read
      let c ← get
      let a ← liftM (f src c)
      resume (g a)
      cut start ((k a).getD start)) where
  groovy {c text c'} inside run unbroken := by
    rw [on_bind_of_ok on_nextStart] at run
    obtain ⟨a, found, cutOut⟩ := of_passing run
    obtain ⟨taken, rest, split, stop, same⟩ := passes found
    rw [stop] at cutOut
    have groovy := same (Source.calm_of_cut inside rfl split cutOut unbroken)
    rw [on_bind_of_ok on_nextStart, on_bind_of_ok on_read, on_bind_of_ok on_get, groovy,
      on_bind_of_ok (on_liftExcept _), on_bind_of_ok (on_resume _), stop]
    exact Tame.groovy lexed.java cutOut

theorem agrees_expression :
    Agrees src tokens (fun text _ => Unbroken noAngles text) expression := by
  refine agrees_passing (f := fun src c => src.passExpression 0 none c.rest) (g := id)
    (k := Prod.fst) fun run => ?_
  obtain ⟨taken, split, stop, same⟩ := Source.passExpression_groovy lexed.java run
  exact ⟨taken, _, split, stop, same⟩

theorem agrees_initializer :
    Agrees src tokens (fun text _ => Unbroken Token.nestAngles text) initializer := by
  refine agrees_passing (f := fun src c => src.passInitializer 0 0 none none c.rest) (g := id)
    (k := Prod.fst) fun run => ?_
  obtain ⟨taken, split, stop, same⟩ := Source.passInitializer_groovy lexed.java run
  exact ⟨taken, _, split, stop, same⟩

theorem agrees_rawStatement :
    Agrees src tokens (fun text _ => Unbroken noAngles text) rawStatement :=
  agrees_passing (f := fun src c => src.passStatement 0 none c.rest) (g := Prod.snd)
    (k := Prod.fst) fun run => Source.passStatement_groovy lexed.java run

theorem agrees_assignment (qualified : Bool) (start : Nat) :
    Agrees src tokens (fun s _ => s.Kept) (assignment qualified start) := by
  refine .behind fun field => .behind fun _ => agrees_expression.followed fun run kept => ?_
  obtain ⟨_, _, _, run⟩ := on_bind_eq_ok.mp run
  cases run
  exact kept _ rfl

theorem agrees_statementFrom (start : Nat) (head : StatementHead) :
    Agrees src tokens (fun s _ => s.Kept) (statementFrom start head) := by
  cases head with
  | superCall | thisCall => exact .behind fun args => .of_tame
  | assignment qualified =>
    cases qualified with
    | false => exact agrees_assignment false start
    | true => exact .behind fun _ => .behind fun _ => agrees_assignment true start
  | other =>
    refine agrees_rawStatement.followed fun run kept => ?_
    cases run
    exact kept _ rfl

theorem agrees_statement :
    Agrees src tokens (fun found _ => ∀ s ∈ found, s.Kept) statement := by
  refine .behind fun start => .behind fun ended => ?_
  split
  · exact .of_tame
  · refine .behind fun next => (agrees_statementFrom start _).followed fun run kept => ?_
    cases run
    exact kept _ rfl

theorem agrees_blockStep :
    Agrees src tokens (fun found _ => ∀ s? ∈ found, ∀ s ∈ s?, s.Kept) blockStep := by
  refine .behind fun closed => ?_
  split
  · exact .of_tame
  · refine .behind fun _ => agrees_statement.followed fun run kept => ?_
    cases run
    exact kept _ rfl

theorem agrees_block :
    Agrees src tokens (fun b _ => ∀ s ∈ b.statements, s.Kept) block := by
  refine .behind fun start => .behind fun _ =>
    (agrees_blockStep.many fun _ => id).followed fun run kept s? member s inside => ?_
  obtain ⟨_, _, _, run⟩ := on_bind_eq_ok.mp run
  cases run
  exact kept s (List.mem_filterMap.mpr ⟨s?, member, inside⟩)

theorem agrees_initializer? :
    Agrees src tokens (fun found _ => ∀ text ∈ found, Unbroken Token.nestAngles text)
      initializer? := by
  refine .behind fun begins => ?_
  split
  · refine agrees_initializer.followed fun run kept => ?_
    cases run
    exact kept _ rfl
  · exact .of_tame

/-- No line ends in the initializer of a variable. -/
abbrev KeptVariable (found : String × Nat × Option String) : Prop :=
  ∀ text ∈ found.2.2, Unbroken Token.nestAngles text

theorem agrees_declarator (name : String) :
    Agrees src tokens (fun found _ => KeptVariable found) (declarator name) := by
  refine .behind fun dims => agrees_initializer?.followed fun run kept => ?_
  cases run
  exact kept

theorem agrees_nextDeclarator :
    Agrees src tokens (fun found _ => ∀ v ∈ found, KeptVariable v) nextDeclarator := by
  refine .behind fun further => ?_
  split
  · refine .behind fun name => (agrees_declarator name).followed fun run kept => ?_
    cases run
    exact kept _ rfl
  · exact .of_tame

theorem agrees_fieldRest (modifiers : Modifiers) (type : TypeRef) (name : String) (start : Nat)
    (doc : Option String) : Agrees src tokens (fun ms _ => ∀ m ∈ ms, m.Kept)
      (fieldRest modifiers type name start doc) := by
  have known {first : String × Nat × Option String} {others} {c c' : Cursor} {ms : List Member}
      (run : (do
        endDeclaration
        let span ← spanFrom start
        return (first :: others).map fun (name, dims, initializer) => Member.field
          { modifiers, name, initializer, doc, span, type := type.array dims }).on src c =
        .ok (ms, c')) (kept : ∀ m ∈ ms, m.Kept) : ∀ v ∈ first :: others, KeptVariable v := by
    obtain ⟨_, _, _, run⟩ := on_bind_eq_ok.mp run
    cases run
    intro v member text inside
    exact (kept _ (List.mem_map_of_mem member)).initializer text inside
  refine (agrees_declarator name).bind (fun first =>
    (agrees_nextDeclarator.many fun _ => id).followed fun run kept v member =>
      known run kept v (List.mem_cons_of_mem _ member)) fun run kept => ?_
  obtain ⟨others, _, _, run⟩ := on_bind_eq_ok.mp run
  exact known run kept _ List.mem_cons_self

theorem agrees_compactConstructor (modifiers : Modifiers) (typeParams : List TypeParam)
    (start : Nat) (doc : Option String) : Agrees src tokens (fun m _ => m.Kept)
      (compactConstructor modifiers typeParams start doc) := by
  refine .behind fun name => agrees_block.followed fun run kept => ?_
  obtain ⟨_, _, _, run⟩ := on_bind_eq_ok.mp run
  cases run
  exact kept.statements

variable {c c' : Cursor}

theorem skipDefault_groovy (inside : c.rest <:+ tokens)
    (unbroken : AnswersUnbroken defaultClause src c)
    (run : skipDefault.on src c = .ok (⟨⟩, c')) : skipDefault.on src.inGroovy c = .ok (⟨⟩, c') := by
  obtain ⟨word, mid, first, run⟩ := on_bind_eq_ok.mp run
  rw [skipDefault, on_bind_of_ok (Tame.groovy lexed.java first)]
  cases word with
  | false => exact run
  | true =>
    obtain ⟨text, last, value, run⟩ := on_bind_eq_ok.mp run
    have known := unbroken.behind first text last (on_bind_of_ok value)
    rw [if_pos rfl,
      on_bind_of_ok (agrees_expression.groovy (Onward.suffix inside first) value known)]
    exact run

theorem body?_groovy {found : Option Block} (inside : c.rest <:+ tokens)
    (unbroken : AnswersUnbroken defaultClause src c)
    (kept : ∀ b ∈ found, ∀ s ∈ b.statements, s.Kept) (run : body?.on src c = .ok (found, c')) :
    body?.on src.inGroovy c = .ok (found, c') := by
  rw [body?, on_bind_of_ok (on_sees _)] at run ⊢
  split at run
  · rename_i opens
    obtain ⟨b, mid, body, run⟩ := on_bind_eq_ok.mp run
    cases run
    rw [if_pos opens, on_bind_of_ok (agrees_block.groovy inside body (kept b rfl))]
    rfl
  · rename_i opens
    obtain ⟨_, mid, first, run⟩ := on_bind_eq_ok.mp run
    rw [if_neg opens, on_bind_of_ok (skipDefault_groovy inside unbroken first)]
    exact Tame.groovy lexed.java run

variable {modifiers : Modifiers} {typeParams : List TypeParam} {returnType : Option TypeRef}
  {className name : String} {start : Nat} {doc : Option String}

theorem methodRest_groovy {m : MethodDecl} (inside : c.rest <:+ tokens)
    (unbroken : AnswersUnbroken defaultValue? src c) (kept : (Member.method m).Kept)
    (run : (methodRest modifiers typeParams returnType name start doc).on src c = .ok (m, c')) :
    (methodRest modifiers typeParams returnType name start doc).on src.inGroovy c =
      .ok (m, c') := by
  obtain ⟨params, _, first, run⟩ := on_bind_eq_ok.mp run
  obtain ⟨dims, _, second, run⟩ := on_bind_eq_ok.mp run
  obtain ⟨throws, _, third, run⟩ := on_bind_eq_ok.mp run
  obtain ⟨body, _, fourth, run⟩ := on_bind_eq_ok.mp run
  cases run
  have statements : ∀ b ∈ body, ∀ s ∈ b.statements, s.Kept := by
    intro b given s inside
    cases Option.mem_def.mp given
    exact kept.statements s inside
  have ahead := Onward.suffix (Onward.suffix (Onward.suffix inside first) second) third
  have value := ((unbroken.behind first).behind second).behind third
  rw [methodRest, on_bind_of_ok (Tame.groovy lexed.java first),
    on_bind_of_ok (Tame.groovy lexed.java second), on_bind_of_ok (Tame.groovy lexed.java third),
    on_bind_of_ok (body?_groovy ahead value statements fourth)]
  rfl

theorem typedMember_groovy {members : List Member} (inside : c.rest <:+ tokens)
    (unbroken : ∀ m ∈ members, AnswersUnbroken m.defaultValue? src c)
    (kept : ∀ m ∈ members, m.Kept)
    (run : (typedMember className modifiers start doc).on src c = .ok (members, c')) :
    (typedMember className modifiers start doc).on src.inGroovy c = .ok (members, c') := by
  obtain ⟨typeParams, mid, first, run⟩ := on_bind_eq_ok.mp run
  have ahead := Onward.suffix inside first
  rw [typedMember, on_bind_of_ok (Tame.groovy lexed.java first)]
  rw [on_bind_of_ok (on_upcoming 2)] at run ⊢
  split at run
  · rename_i compact
    obtain ⟨m, last, made, run⟩ := on_bind_eq_ok.mp run
    cases run
    have known := kept m (List.mem_singleton_self m)
    rw [if_pos compact, on_bind_of_ok ((agrees_compactConstructor ..).groovy ahead made known)]
    rfl
  · rename_i compact
    rw [if_neg compact]
    split at run
    · rename_i callable
      obtain ⟨name, behind, second, run⟩ := on_bind_eq_ok.mp run
      obtain ⟨m, last, made, run⟩ := on_bind_eq_ok.mp run
      cases run
      have known := kept _ (List.mem_singleton_self _)
      have value := unbroken _ (List.mem_singleton_self _)
      rw [if_pos callable, on_bind_of_ok (Tame.groovy lexed.java second),
        on_bind_of_ok (methodRest_groovy (Onward.suffix ahead second)
          ((value.behind first).behind second) ⟨known.initializer, known.statements⟩ made)]
      rfl
    · rename_i callable
      rw [if_neg callable]
      obtain ⟨type, _, second, run⟩ := on_bind_eq_ok.mp run
      obtain ⟨name, _, third, run⟩ := on_bind_eq_ok.mp run
      have further := Onward.suffix (Onward.suffix ahead second) third
      rw [methodOrFields, on_bind_of_ok (Tame.groovy lexed.java second),
        on_bind_of_ok (Tame.groovy lexed.java third)]
      rw [on_bind_of_ok (on_sees _)] at run ⊢
      split at run
      · rename_i opens
        obtain ⟨m, last, made, run⟩ := on_bind_eq_ok.mp run
        cases run
        have known := kept _ (List.mem_singleton_self _)
        have value := unbroken _ (List.mem_singleton_self _)
        rw [if_pos opens, on_bind_of_ok (methodRest_groovy further
          (((value.behind first).behind second).behind third) known made)]
        rfl
      · rename_i opens
        rw [if_neg opens]
        exact (agrees_fieldRest ..).groovy further run kept

end Bodies

section Classes

variable {src : Source} {tokens : List Located}

theorem filter_from [holds : src.Holds tokens] {t : Located} {ts : List Located}
    (inside : t :: ts <:+ tokens) :
    tokens.filter (fun u => decide (t.start ≤ u.start)) = t :: ts := by
  obtain ⟨front, rfl⟩ := inside
  have positive (u : Located) (member : u ∈ front ++ t :: ts) : u.start < u.stop :=
    (holds.stands u member).some
  obtain ⟨_, behind, apart⟩ := List.pairwise_append.mp holds.order
  refine filter_append_of_starts (fun u member => ?_) fun u member => ?_
  · have before := apart u member t List.mem_cons_self
    have some := positive u (List.mem_append_left _ member)
    omega
  · cases member with
    | head => exact Nat.le_refl _
    | tail _ member =>
      have after := (List.pairwise_cons.mp behind).1 u member
      have some := positive t (List.mem_append_right _ List.mem_cons_self)
      omega

/-- No line ends in a class read so far. -/
def KeptClasses (src : Source) (tokens : List Located) (c : Cursor) : Prop :=
  ∀ d ∈ c.classes, d.Unbroken src tokens

/-- Nor in these members. -/
def KeptMembers (src : Source) (tokens : List Located) (members : List Member) (c : Cursor) :
    Prop :=
  (∀ m ∈ members, m.Unbroken src tokens) ∧ KeptClasses src tokens c

theorem KeptClasses.earlier {c c' : Cursor} (known : KeptClasses src tokens c')
    (before : c.classes <+: c'.classes) : KeptClasses src tokens c :=
  fun d member => known d (before.mem member)

theorem KeptMembers.earlier {members : List Member} {c c' : Cursor}
    (before : c.classes <+: c'.classes) (known : KeptMembers src tokens members c') :
    KeptMembers src tokens members c :=
  ⟨known.1, known.2.earlier before⟩

theorem agrees_closeDocs {good : Unit → Cursor → Prop} : Agrees src tokens good closeDocs :=
  .of_eq fun _ => rfl

variable [lexed : src.Lexed tokens]

theorem agrees_initializerBlock? (start : Nat) :
    Agrees src tokens (fun _ _ => True) (initializerBlock? start) := by
  refine .behind fun isStatic => .behind fun begins => ?_
  split
  · exact .behind fun _ => agrees_closeDocs.after fun _ => .of_tame
  · exact .of_tame

variable [src.Holds tokens]

/-- A declaration other than a class, whose modifiers were read from where it begins. -/
theorem typedMember_groovy_of_start {className : String} {modifiers : Modifiers}
    {doc : Option String} {c mid c' : Cursor} {members : List Member} (inside : c.rest <:+ tokens)
    (words : Parser.modifiers.on src c = .ok (modifiers, mid))
    (known : ∀ m ∈ members, m.Unbroken src tokens)
    (run : (typedMember className modifiers ((c.rest.head?.map (·.start)).getD src.stop) doc).on
      src mid = .ok (members, c')) :
    (typedMember className modifiers ((c.rest.head?.map (·.start)).getD src.stop) doc).on
      src.inGroovy mid = .ok (members, c') := by
  have ahead := Onward.suffix inside words
  refine typedMember_groovy ahead (fun m member => ?_) (fun m member => (known m member).toKept) run
  have span := (typedMember_leaves run).span m member
  refine ((known m member).default c ?_).behind words
  cases rest : c.rest with
  | nil =>
    have taken := Eats.eats run
    have fewer := Onward.length_le words
    rw [rest, List.length_nil] at fewer
    omega
  | cons t ts =>
    rw [rest] at inside span
    rw [span]
    exact (@filter_from src tokens _ t ts inside).symm

theorem agrees_memberOver {nested : Modifiers → Nat → Option String → Parser ClassId}
    {className : String} (inner : ∀ modifiers start doc,
      Agrees src tokens (fun _ => KeptClasses src tokens) (nested modifiers start doc)) :
    Agrees src tokens (KeptMembers src tokens) (memberOver nested className) where
  groovy {c members c'} inside run known := by
    rw [memberOver, on_bind_of_ok on_nextStart] at run
    rw [memberOver, on_bind_of_ok (Tame.groovy lexed.java on_nextStart)]
    obtain ⟨ended, mid, first, run⟩ := on_bind_eq_ok.mp run
    rw [on_bind_of_ok (Tame.groovy lexed.java first)]
    cases ended with
    | true => exact run
    | false =>
      rw [on_accept] at first
      split at first <;> cases first
      obtain ⟨found, mid, block, run⟩ := on_bind_eq_ok.mp run
      rw [if_neg Bool.false_ne_true,
        on_bind_of_ok ((agrees_initializerBlock? _).groovy inside block trivial)]
      cases found with
      | some block => exact run
      | none =>
        obtain rfl := initializerBlock?_none block
        rw [declaredMember, on_bind_of_ok (on_docBefore _)] at run
        obtain ⟨modifiers, behind, words, run⟩ := on_bind_eq_ok.mp run
        rw [declaredMember, on_bind_of_ok (Tame.groovy lexed.java (on_docBefore _)),
          on_bind_of_ok (Tame.groovy lexed.java words)]
        rw [on_bind_of_ok (on_upcoming 2)] at run ⊢
        split at run
        · rename_i begins
          obtain ⟨id, last, read, run⟩ := on_bind_eq_ok.mp run
          cases run
          rw [if_pos begins, on_bind_of_ok
            ((inner ..).groovy (Onward.suffix inside words) read known.2)]
          rfl
        · rename_i begins
          obtain ⟨found, last, typed, run⟩ := on_bind_eq_ok.mp run
          obtain ⟨_, _, closed, run⟩ := on_bind_eq_ok.mp run
          cases run
          have groovy := typedMember_groovy_of_start inside words known.1 typed
          rw [if_neg begins, on_bind_of_ok groovy]
          exact on_bind_of_ok closed

omit [src.Holds tokens]

theorem agrees_leadingConstants (kind : ClassKind) :
    Agrees src tokens (fun _ _ => True) (leadingConstants kind) := by
  unfold leadingConstants
  split
  · exact .behind fun c => .behind fun found => agrees_closeDocs.after fun _ => .of_tame
  · exact .of_tame

variable {kind : ClassKind} {member : Parser (List Member)} [Onward member]

theorem agrees_classStep (each : Agrees src tokens (KeptMembers src tokens) member) :
    Agrees src tokens (fun found c => ∀ ms ∈ found, KeptMembers src tokens ms c)
      (classStep member) := by
  refine .behind fun closed => ?_
  split
  · exact .of_tame
  · refine .behind fun _ => each.followed fun run known => ?_
    cases run
    exact known _ rfl

theorem agrees_classBody (each : Agrees src tokens (KeptMembers src tokens) member) :
    Agrees src tokens (KeptMembers src tokens) (classBody kind member) := by
  refine (agrees_leadingConstants kind).after fun constants =>
    ((agrees_classStep each).many KeptMembers.earlier).followed fun run known ms among => ?_
  cases run
  refine ⟨fun m inside => known.1 m ?_, known.2⟩
  exact List.mem_append_right _ (List.mem_flatten_of_mem among inside)

theorem agrees_bracedBody (each : Agrees src tokens (KeptMembers src tokens) member) :
    Agrees src tokens (fun body => KeptMembers src tokens body.1) (bracedBody kind member) := by
  refine .behind fun start => .behind fun _ => .after (.of_eq fun _ => rfl) fun _ =>
    (agrees_classBody each).followed fun run known => ?_
  obtain ⟨_, behind, closes, run⟩ := on_bind_eq_ok.mp run
  have classes := Onward.classes closes
  cases run
  exact known.earlier classes

theorem agrees_classOver {member : String → Parser (List Member)} [∀ name, Onward (member name)]
    (each : ∀ name, Agrees src tokens (KeptMembers src tokens) (member name))
    (modifiers : Modifiers) (start : Nat) (doc : Option String) :
    Agrees src tokens (fun _ => KeptClasses src tokens) (classOver member modifiers start doc) := by
  refine .behind fun head => (agrees_bracedBody (each head.name)).bind (fun body =>
    agrees_closeDocs.after fun _ => .behind fun span => .of_eq fun _ => rfl) fun run known => ?_
  obtain ⟨_, mid, closed, run⟩ := on_bind_eq_ok.mp run
  cases closeDocs_eq closed
  cases run
  have among := List.forall_mem_append.mp known
  exact ⟨among.2 _ (List.mem_singleton_self _), among.1⟩

end Classes

section Units

variable {src : Source} {tokens : List Located} [src.Lexed tokens] [src.Holds tokens]

theorem agrees_classWithin (depth : Nat) (modifiers : Modifiers) (start : Nat)
    (doc : Option String) : Agrees src tokens (fun _ => KeptClasses src tokens)
      (classWithin depth modifiers start doc) := by
  induction depth generalizing modifiers start doc with
  | zero => exact ⟨fun _ run => nomatch run⟩
  | succ depth ih =>
    exact agrees_classOver (fun name => agrees_memberOver ih) modifiers start doc

theorem agrees_classDecl (modifiers : Modifiers) (start : Nat) (doc : Option String) :
    Agrees src tokens (fun _ => KeptClasses src tokens) (classDecl modifiers start doc) :=
  .behind fun _ => agrees_classWithin _ modifiers start doc

theorem agrees_item : Agrees src tokens (fun _ => KeptClasses src tokens) item := by
  refine .behind fun blank => ?_
  split
  · exact .of_tame
  refine .behind fun start => .behind fun doc => .behind fun modifiers => .behind fun next => ?_
  unfold itemFrom
  split
  · exact .behind fun _ => .behind fun name => .behind fun _ => agrees_closeDocs.after fun _ =>
      .of_tame
  split
  · exact .behind fun decl => agrees_closeDocs.after fun _ => .of_tame
  split
  · exact (agrees_classDecl modifiers start doc).followed fun run known => by
      cases run
      exact known
  · exact .of_tame

theorem agrees_unitStep :
    Agrees src tokens (fun found c => ∀ i ∈ found, KeptClasses src tokens c) unitStep := by
  refine .behind fun ended => ?_
  split
  · exact .of_tame
  · refine agrees_item.followed fun run known => ?_
    cases run
    exact known _ rfl

theorem agrees_unit :
    Agrees src tokens (fun u _ => ∀ d ∈ u.classes, d.Unbroken src tokens) unit := by
  have items : Agrees src tokens (fun items c => ∀ i ∈ items, KeptClasses src tokens c)
      (many unitStep) := agrees_unitStep.many fun before known => known.earlier before
  refine items.followed fun run known _ _ => ?_
  cases run
  exact known

theorem lexed_of_tokenize {text : String} {located : List Located}
    (tokens : tokenize text = .ok located) :
    (sourceOf text .java located).Lexed (codeTokens located) := by
  obtain ⟨pieces, whole, stand, rfl⟩ := Piece.exists_pieces_of_tokenize tokens
  exact ⟨rfl, pieces, stand, whole.symm, rfl⟩

end Units

end Parser

/-- No line ends between two tokens of a field initializer, the value of an assignment, a statement
that is kept as text or the default value of an annotation element, outside brackets. -/
def CompilationUnit.Unbroken (text : String) (u : CompilationUnit) : Prop :=
  ∀ located, tokenize text = .ok located →
    ∀ c ∈ u.classes, c.Unbroken (sourceOf text .java located) (codeTokens located)

/-- Groovy accepts what Java accepts, and declares the same in it, where no line ends in a text
that is kept or in a default value. -/
theorem parseUnit_groovy_of_java {text : String} {u : CompilationUnit}
    (read : parseUnit text .java = .ok u) (unbroken : u.Unbroken text) :
    parseUnit text .groovy = .ok u := by
  obtain ⟨located, c, tokens, run⟩ := parseUnit_eq_ok.mp read
  have lexed := lexed_of_tokenize tokens
  have holds := @holds_of_tokenize text .java located tokens
  have agrees := @agrees_unit _ _ lexed holds
  have groovy := agrees.groovy (c := Parser.start located) List.suffix_rfl run
    (unbroken located tokens)
  exact parseUnit_eq_ok.mpr ⟨located, c, tokens, groovy⟩

/-- A default value, an initializer and an assignment with line breaks in brackets and angles. -/
def nestedBreaks : String :=
  "@interface A\x7bint x()default(\n1);M m=new M<A,\nB>;A()\x7bm=(\n1);\x7d\x7d"

def nestedBreaksTokens : List Located :=
  [⟨.symbol .atSign, 0, 1⟩, ⟨.keyword .interfaceWord, 1, 10⟩, ⟨.name "A", 11, 12⟩,
    ⟨.symbol .lbrace, 12, 13⟩, ⟨.name "int", 13, 16⟩, ⟨.name "x", 17, 18⟩,
    ⟨.symbol .lparen, 18, 19⟩, ⟨.symbol .rparen, 19, 20⟩, ⟨.name "default", 20, 27⟩,
    ⟨.symbol .lparen, 27, 28⟩, ⟨.number "1", 29, 30⟩, ⟨.symbol .rparen, 30, 31⟩,
    ⟨.symbol .semicolon, 31, 32⟩, ⟨.name "M", 32, 33⟩, ⟨.name "m", 34, 35⟩,
    ⟨.symbol .equals, 35, 36⟩, ⟨.name "new", 36, 39⟩, ⟨.name "M", 40, 41⟩,
    ⟨.symbol .langle, 41, 42⟩, ⟨.name "A", 42, 43⟩, ⟨.symbol .comma, 43, 44⟩,
    ⟨.name "B", 45, 46⟩, ⟨.symbol .rangle, 46, 47⟩, ⟨.symbol .semicolon, 47, 48⟩,
    ⟨.name "A", 48, 49⟩, ⟨.symbol .lparen, 49, 50⟩, ⟨.symbol .rparen, 50, 51⟩,
    ⟨.symbol .lbrace, 51, 52⟩, ⟨.name "m", 52, 53⟩, ⟨.symbol .equals, 53, 54⟩,
    ⟨.symbol .lparen, 54, 55⟩, ⟨.number "1", 56, 57⟩, ⟨.symbol .rparen, 57, 58⟩,
    ⟨.symbol .semicolon, 58, 59⟩, ⟨.symbol .rbrace, 59, 60⟩, ⟨.symbol .rbrace, 60, 61⟩]

def nestedBreaksUnit : CompilationUnit :=
  ⟨none, [], 0,
    [⟨.annotationType, "A", .empty, [], none, [], [],
      [.method ⟨.empty, [], some (.simple "int"), "x", [], [], none, none, ⟨13, 32⟩⟩,
       .field ⟨.empty, .simple "M", "m", some "new M<A,\nB>", none, ⟨32, 48⟩⟩,
       .constructor ⟨.empty, [], none, "A", [], [],
        some ⟨[.assign false "m" "(\n1)" ⟨52, 59⟩], ⟨51, 60⟩⟩, none, ⟨48, 60⟩⟩],
      none, ⟨12, 61⟩, ⟨0, 61⟩⟩], [0]⟩

theorem nestedBreaks_groovy : parseUnit nestedBreaks .java = .ok nestedBreaksUnit ∧
    nestedBreaksUnit.Unbroken nestedBreaks ∧
    parseUnit nestedBreaks .groovy = .ok nestedBreaksUnit := by
  have read : parseUnit nestedBreaks .java = .ok nestedBreaksUnit :=
    eq_ok_of_toOption (by decide +kernel)
  have cut : tokenize nestedBreaks = .ok nestedBreaksTokens :=
    eq_ok_of_toOption (by decide +kernel)
  have unbroken : nestedBreaksUnit.Unbroken nestedBreaks := by
    intro located tokens
    cases cut.symm.trans tokens
    refine List.forall_mem_singleton.mpr (List.forall_mem_cons.mpr ⟨?element,
      List.forall_mem_cons.mpr ⟨?field, List.forall_mem_singleton.mpr ?constructor⟩⟩)
    case element =>
      refine ⟨by decide +kernel, ?_⟩
      rintro ⟨rest, last, floor, classes⟩ ahead
      have begins : rest = nestedBreaksTokens.drop 4 := ahead
      subst begins
      exact @AnswersUnbroken.of_run _ _ _ _ (some "(\n1)") rfl (by decide +kernel)
    case field =>
      refine ⟨by decide +kernel, ?_⟩
      rintro ⟨rest, last, floor, classes⟩ ahead
      have begins : rest = nestedBreaksTokens.drop 13 := ahead
      subst begins
      exact .of_run rfl nofun
    case constructor =>
      refine ⟨by decide +kernel, ?_⟩
      rintro ⟨rest, last, floor, classes⟩ ahead
      have begins : rest = nestedBreaksTokens.drop 24 := ahead
      subst begins
      exact .of_run rfl nofun
  exact ⟨read, unbroken, parseUnit_groovy_of_java read unbroken⟩

/-- A default value ends at the line break between its tokens, and what follows is no member. -/
def brokenDefault : String :=
  "@interface A \x7b int x() default 1 +\n2; \x7d"

def brokenDefaultUnit : CompilationUnit :=
  ⟨none, [], 0,
    [⟨.annotationType, "A", .empty, [], none, [], [],
      [.method ⟨.empty, [], some (.simple "int"), "x", [], [], none, none, ⟨15, 37⟩⟩],
      none, ⟨13, 39⟩, ⟨0, 39⟩⟩], [0]⟩

/-- It does not do that no line ends in a text that is kept. -/
theorem brokenDefault_groovy : parseUnit brokenDefault .java = .ok brokenDefaultUnit ∧
    (∀ c ∈ brokenDefaultUnit.classes, ∀ m ∈ c.members, m.Kept) ∧
    (parseUnit brokenDefault .groovy).toOption = none :=
  ⟨eq_ok_of_toOption (by decide +kernel), by decide +kernel, by decide +kernel⟩

end CreatorSynth
