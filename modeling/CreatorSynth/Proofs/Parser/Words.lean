import CreatorSynth.Proofs.Parser.Growth
import CreatorSynth.Proofs.Token.Words

/-! What the declarations of a source are called. Classes, fields and the parameters of constructors
are named by words that the lexer cut out. -/
namespace CreatorSynth

/-- A field, or the parameters of a constructor, are called by words. -/
def Member.Worded (m : Member) : Prop :=
  (∀ f ∈ m.field?, IsWord f.name) ∧ ∀ d ∈ m.constructor?, ∀ p ∈ d.params, IsWord p.name

/-- The class is called by a word, and so is what a constructor can be built from. -/
structure ClassDecl.Worded (d : ClassDecl) : Prop where
  name : IsWord d.name
  members : ∀ m ∈ d.members, m.Worded

def CompilationUnit.Worded (u : CompilationUnit) : Prop :=
  ∀ d ∈ u.classes, d.Worded

/-- Names that are ahead are names as the lexer makes them, and the classes read so far are called
by words. -/
structure Cursor.Worded (c : Cursor) : Prop where
  ahead : ∀ t ∈ c.rest, ∀ name, t.token = .name name → IsName name
  classes : ∀ d ∈ c.classes, d.Worded

namespace Parser

variable {α β : Type} {src : Source} {p q : Parser α} {f : α → Parser β} {A : α → Prop}
  {B : β → Prop}

/-- Where names ahead are as the lexer makes them, the answer is as said, and so are the classes
read. -/
structure Gives (p : Parser α) (A : α → Prop) : Prop where
  gives : ∀ {src c a c'}, c.Worded → p.on src c = .ok (a, c') → c'.Worded ∧ A a

namespace Gives

theorem bind (first : Gives p A) (second : ∀ a, A a → Gives (f a) B) : Gives (p >>= f) B := by
  refine ⟨fun worded run => ?_⟩
  obtain ⟨a, mid, run, run'⟩ := on_bind_eq_ok.mp run
  obtain ⟨between, known⟩ := first.gives worded run
  exact (second a known).gives between run'

theorem pure {a : α} (known : A a) : Gives (Pure.pure a) A := by
  refine ⟨fun worded run => ?_⟩
  cases run
  exact ⟨worded, known⟩

theorem throw (e : ParseError) : Gives (MonadExcept.throw e : Parser α) A :=
  ⟨fun _ run => by cases run⟩

theorem ite {condition : Prop} [Decidable condition] (yes : condition → Gives p A)
    (no : ¬condition → Gives q A) : Gives (if condition then p else q) A := by
  split
  · exact yes ‹_›
  · exact no ‹_›

theorem quiet [Onward p] [Quiet p] : Gives p fun _ => True := by
  refine ⟨fun {src c a c'} worded run => ?_⟩
  obtain ⟨taken, moves⟩ := Onward.onward run
  refine ⟨⟨fun t member => ?_, ?_⟩, trivial⟩
  · refine worded.ahead t ?_
    rw [moves.rest]
    exact List.mem_append_right _ member
  · rw [Quiet.classes run]
    exact worded.classes

theorem many {step : Parser (Option α)} (each : Gives step fun found => ∀ a ∈ found, A a) :
    Gives (many step) fun found => ∀ a ∈ found, A a := by
  refine ⟨fun {src c found c'} worded run => ?_⟩
  refine many_induction
    (motive := fun c found c' => c.Worded → c'.Worded ∧ ∀ a ∈ found, A a) ?_ ?_ run worded
  · intro c c' ended worded
    exact ⟨(each.gives worded ended).1, nofun⟩
  · intro c mid c' a as stepped more worded
    obtain ⟨between, known⟩ := each.gives worded stepped
    obtain ⟨behind, others⟩ := more between
    exact ⟨behind, List.forall_mem_cons.mpr ⟨known a rfl, others⟩⟩

theorem separated {s : Symbol} {item : Parser α} (each : Gives item A) :
    Gives (separated s item) fun found => ∀ a ∈ found, A a := by
  refine each.bind fun first known => ?_
  refine (many (A := A) ?_).bind fun others each =>
    .pure (List.forall_mem_cons.mpr ⟨known, each⟩)
  refine quiet.bind fun more _ => .ite (fun _ => ?_) fun _ => .pure nofun
  exact each.bind fun a known => .pure fun b same => Option.some.inj same ▸ known

end Gives

section Names

theorem gives_identifier : Gives identifier IsWord := by
  refine ⟨fun {src c s c'} worded run => ⟨(Gives.quiet.gives worded run).1, ?_⟩⟩
  rw [on_identifier] at run
  split at run
  · rename_i head
    cases run
    obtain ⟨t, ahead, same⟩ := Option.map_eq_some_iff.mp head
    exact .inl (worded.ahead t (List.mem_of_head? ahead) _ same)
  · cases run
    exact .inr rfl
  · cases run

theorem gives_param? : Gives param? fun found => ∀ p ∈ found, IsWord p.name := by
  refine Gives.quiet.bind fun start _ => ?_
  refine Gives.quiet.bind fun modifiers _ => ?_
  refine Gives.quiet.bind fun type _ => ?_
  refine Gives.quiet.bind fun varargs _ => ?_
  refine Gives.quiet.bind fun receiver _ => .ite (fun _ => .pure nofun) fun _ => ?_
  refine gives_identifier.bind fun name word => ?_
  refine Gives.quiet.bind fun dims _ => ?_
  exact Gives.quiet.bind fun span _ => .pure fun p same => Option.some.inj same ▸ word

theorem gives_params : Gives params fun found => ∀ p ∈ found, IsWord p.name := by
  refine Gives.quiet.bind fun _ _ => ?_
  refine Gives.quiet.bind fun closed _ => .ite (fun _ => .pure nofun) fun _ => ?_
  refine (Gives.separated gives_param?).bind fun found words => ?_
  refine Gives.quiet.bind fun _ _ => .pure fun p member => ?_
  obtain ⟨given, among, same⟩ := List.mem_filterMap.mp member
  exact words given among p same

variable {modifiers : Modifiers} {typeParams : List TypeParam} {returnType : Option TypeRef}
  {type : TypeRef} {className name : String} {start : Nat} {doc : Option String}

theorem gives_methodRest : Gives (methodRest modifiers typeParams returnType name start doc)
    fun m => ∀ p ∈ m.params, IsWord p.name := by
  refine gives_params.bind fun params words => ?_
  refine Gives.quiet.bind fun dims _ => ?_
  refine Gives.quiet.bind fun throws _ => ?_
  refine Gives.quiet.bind fun body _ => ?_
  exact Gives.quiet.bind fun span _ => .pure words

theorem gives_declarator (word : IsWord name) : Gives (declarator name) fun found => IsWord found.1 :=
  Gives.quiet.bind fun _ _ => Gives.quiet.bind fun _ _ => .pure word

theorem gives_nextDeclarator : Gives nextDeclarator fun found => ∀ d ∈ found, IsWord d.1 := by
  refine Gives.quiet.bind fun more _ => .ite (fun _ => ?_) fun _ => .pure nofun
  refine gives_identifier.bind fun name word => ?_
  exact (gives_declarator word).bind fun d known => .pure fun d' same => Option.some.inj same ▸ known

theorem gives_fieldRest (word : IsWord name) : Gives (fieldRest modifiers type name start doc)
    fun members => ∀ m ∈ members, m.Worded := by
  refine (gives_declarator word).bind fun first known => ?_
  refine (Gives.many gives_nextDeclarator).bind fun others each => ?_
  refine Gives.quiet.bind fun _ _ => Gives.quiet.bind fun span _ => .pure fun m member => ?_
  obtain ⟨⟨name, dims, initializer⟩, among, rfl⟩ := List.mem_map.mp member
  have words : ∀ d ∈ first :: others, IsWord d.1 := List.forall_mem_cons.mpr ⟨known, each⟩
  exact ⟨fun f same => Option.some.inj same ▸ words _ among, nofun⟩

theorem gives_compactConstructor :
    Gives (compactConstructor modifiers typeParams start doc) Member.Worded := by
  refine Gives.quiet.bind fun name _ => Gives.quiet.bind fun body _ => ?_
  exact Gives.quiet.bind fun span _ => .pure ⟨nofun, fun d same => Option.some.inj same ▸ nofun⟩

theorem gives_methodOrFields : Gives (methodOrFields modifiers typeParams start doc)
    fun members => ∀ m ∈ members, m.Worded := by
  refine Gives.quiet.bind fun type _ => gives_identifier.bind fun name word => ?_
  refine Gives.quiet.bind fun opens _ => .ite (fun _ => ?_) fun _ => gives_fieldRest word
  exact gives_methodRest.bind fun m _ => .pure (List.forall_mem_singleton.mpr ⟨nofun, nofun⟩)

theorem gives_typedMember : Gives (typedMember className modifiers start doc)
    fun members => ∀ m ∈ members, m.Worded := by
  refine Gives.quiet.bind fun typeParams _ => Gives.quiet.bind fun next _ => ?_
  refine .ite (fun _ => ?_) fun _ => .ite (fun _ => ?_) fun _ => gives_methodOrFields
  · exact gives_compactConstructor.bind fun m worded => .pure (List.forall_mem_singleton.mpr worded)
  · refine Gives.quiet.bind fun name _ => gives_methodRest.bind fun m words => ?_
    exact .pure (List.forall_mem_singleton.mpr
      ⟨nofun, fun d same => Option.some.inj same ▸ words⟩)

end Names

section Classes

variable {kind : ClassKind} {member : Parser (List Member)}

theorem gives_enumConstant : Gives enumConstant Member.Worded := by
  refine Gives.quiet.bind fun start _ => Gives.quiet.bind fun modifiers _ => ?_
  refine Gives.quiet.bind fun name _ => Gives.quiet.bind fun args _ => ?_
  exact Gives.quiet.bind fun _ _ => Gives.quiet.bind fun span _ => .pure ⟨nofun, nofun⟩

theorem gives_enumConstantsWithin (bound : Nat) :
    Gives (enumConstantsWithin bound) fun members => ∀ m ∈ members, m.Worded := by
  induction bound with
  | zero => exact .throw _
  | succ bound ih =>
    refine Gives.quiet.bind fun ended _ => .ite (fun _ => .pure nofun) fun _ => ?_
    refine Gives.quiet.bind fun closed _ => .ite (fun _ => .pure nofun) fun _ => ?_
    refine gives_enumConstant.bind fun constant worded => ?_
    refine Gives.quiet.bind fun more _ => .ite (fun _ => ?_) fun _ => ?_
    · exact ih.bind fun others each => .pure (List.forall_mem_cons.mpr ⟨worded, each⟩)
    · exact Gives.quiet.bind fun _ _ => .pure (List.forall_mem_singleton.mpr worded)

theorem gives_leadingConstants :
    Gives (leadingConstants kind) fun members => ∀ m ∈ members, m.Worded := by
  refine .ite (fun _ => ?_) fun _ => .pure nofun
  refine Gives.quiet.bind fun c _ => (gives_enumConstantsWithin _).bind fun found each => ?_
  exact Gives.quiet.bind fun _ _ => .pure each

theorem gives_classBody (each : Gives member fun members => ∀ m ∈ members, m.Worded) :
    Gives (classBody kind member) fun members => ∀ m ∈ members, m.Worded := by
  have step : Gives (classStep member) fun found => ∀ ms ∈ found, ∀ m ∈ ms, m.Worded := by
    refine Gives.quiet.bind fun closed _ => .ite (fun _ => .pure nofun) fun _ => ?_
    refine Gives.quiet.bind fun _ _ => each.bind fun ms worded => ?_
    exact .pure fun ms' same => Option.some.inj same ▸ worded
  refine gives_leadingConstants.bind fun constants leading => ?_
  refine (Gives.many step).bind fun others all => .pure fun m among => ?_
  rcases List.mem_append.mp among with constant | other
  · exact leading m constant
  · obtain ⟨ms, member, inside⟩ := List.mem_flatten.mp other
    exact all ms member m inside

theorem gives_bracedBody (each : Gives member fun members => ∀ m ∈ members, m.Worded) :
    Gives (bracedBody kind member) fun body => ∀ m ∈ body.1, m.Worded := by
  refine Gives.quiet.bind fun start _ => Gives.quiet.bind fun _ _ => Gives.quiet.bind fun _ _ => ?_
  refine (gives_classBody each).bind fun members worded => ?_
  exact Gives.quiet.bind fun _ _ => Gives.quiet.bind fun span _ => .pure worded

theorem gives_classHead : Gives classHead fun head => IsWord head.name := by
  refine Gives.quiet.bind fun kind _ => gives_identifier.bind fun name word => ?_
  refine Gives.quiet.bind fun typeParams _ => Gives.quiet.bind fun components _ => ?_
  exact Gives.quiet.bind fun supertypes _ => .pure word

theorem gives_addClass {d : ClassDecl} (worded : d.Worded) : Gives (addClass d) fun _ => True := by
  refine ⟨fun {src c id c'} before run => ?_⟩
  cases run
  refine ⟨⟨before.ahead, fun e among => ?_⟩, trivial⟩
  rcases List.mem_append.mp among with old | new
  · exact before.classes e old
  · rwa [List.mem_singleton.mp new]

theorem gives_classOver {member : String → Parser (List Member)} {modifiers : Modifiers}
    {start : Nat} {doc : Option String}
    (each : ∀ name, Gives (member name) fun members => ∀ m ∈ members, m.Worded) :
    Gives (classOver member modifiers start doc) fun _ => True := by
  refine gives_classHead.bind fun head word => ?_
  refine (gives_bracedBody (each head.name)).bind fun body worded => ?_
  refine Gives.quiet.bind fun _ _ => Gives.quiet.bind fun span _ => ?_
  exact gives_addClass ⟨word, worded⟩

theorem gives_initializerBlock? (start : Nat) :
    Gives (initializerBlock? start) fun found => ∀ m ∈ found, m.Worded := by
  have quiet : Quiet staticWord := by
    unfold staticWord
    infer_instance
  refine Gives.quiet.bind fun isStatic _ => Gives.quiet.bind fun opens _ => ?_
  refine .ite (fun _ => ?_) fun _ => .pure nofun
  refine Gives.quiet.bind fun _ _ => Gives.quiet.bind fun _ _ => Gives.quiet.bind fun span _ => ?_
  exact .pure fun m same => Option.some.inj same ▸ ⟨nofun, nofun⟩

theorem gives_memberOver {nested : Modifiers → Nat → Option String → Parser ClassId}
    {className : String} (inner : ∀ modifiers start doc, Gives (nested modifiers start doc)
      fun _ => True) :
    Gives (memberOver nested className) fun members => ∀ m ∈ members, m.Worded := by
  refine Gives.quiet.bind fun start _ => Gives.quiet.bind fun ended _ => ?_
  refine .ite (fun _ => .pure nofun) fun _ => ?_
  refine (gives_initializerBlock? start).bind fun found worded => ?_
  cases found with
  | some m => exact .pure (List.forall_mem_singleton.mpr (worded m rfl))
  | none =>
    refine Gives.quiet.bind fun doc _ => Gives.quiet.bind fun modifiers _ => ?_
    refine Gives.quiet.bind fun next _ => .ite (fun _ => ?_) fun _ => ?_
    · refine (inner modifiers start doc).bind fun id _ => Gives.quiet.bind fun span _ => ?_
      exact .pure (List.forall_mem_singleton.mpr ⟨nofun, nofun⟩)
    · exact gives_typedMember.bind fun members worded => Gives.quiet.bind fun _ _ => .pure worded

theorem gives_classWithin (depth : Nat) (modifiers : Modifiers) (start : Nat) (doc : Option String) :
    Gives (classWithin depth modifiers start doc) fun _ => True := by
  induction depth generalizing modifiers start doc with
  | zero => exact .throw _
  | succ depth ih => exact gives_classOver fun name => gives_memberOver ih

theorem gives_classDecl (modifiers : Modifiers) (start : Nat) (doc : Option String) :
    Gives (classDecl modifiers start doc) fun _ => True :=
  Gives.quiet.bind fun _ _ => gives_classWithin _ modifiers start doc

theorem gives_item : Gives item fun _ => True := by
  refine Gives.quiet.bind fun blank _ => .ite (fun _ => .pure trivial) fun _ => ?_
  refine Gives.quiet.bind fun start _ => Gives.quiet.bind fun doc _ => ?_
  refine Gives.quiet.bind fun modifiers _ => Gives.quiet.bind fun next _ => ?_
  refine .ite (fun _ => .quiet) fun _ => .ite (fun _ => .quiet) fun _ => ?_
  refine .ite (fun _ => ?_) fun _ => .quiet
  exact (gives_classDecl modifiers start doc).bind fun id _ => .pure trivial

theorem gives_unit : Gives unit CompilationUnit.Worded := by
  have step : Gives unitStep fun found => ∀ item ∈ found, True := by
    refine Gives.quiet.bind fun ended _ => .ite (fun _ => .pure nofun) fun _ => ?_
    exact gives_item.bind fun found _ => .pure fun _ _ => trivial
  refine (Gives.many step).bind fun items _ => ?_
  refine ⟨fun {src c u c'} worded run => ?_⟩
  rw [on_bind_of_ok on_get] at run
  cases run
  exact ⟨worded, worded.classes⟩

end Classes

theorem worded_start {text : String} {located : List Located}
    (tokens : tokenize text = .ok located) : (start located).Worded :=
  ⟨fun _ member _ same => isName_of_tokenize tokens (List.mem_filter.mp member).1 same, nofun⟩

end Parser

/-- In a source that is read, classes, fields and the parameters of constructors are called by
words. -/
theorem parseUnit_worded {text : String} {dialect : Dialect} {u : CompilationUnit}
    (read : parseUnit text dialect = .ok u) : u.Worded := by
  obtain ⟨located, c', tokens, run⟩ := parseUnit_eq_ok.mp read
  exact (Parser.gives_unit.gives (Parser.worded_start tokens) run).2

end CreatorSynth
