import CreatorSynth.Proofs.Creator.ReadBack
import CreatorSynth.Proofs.Parser.Taking

/-! A generated constructor: which parameters it takes, and what its body says. -/
namespace CreatorSynth
open Text

/-- The text of a generated constructor is read back, with a statement for each line of its body,
whether some of the words in those lines are the word `record` or not. -/
theorem parseMember_words {text className : String} {lines : List BodyLine} {d : Dialect}
    (whole : (stubPieces d className lines).flatMap Piece.text = text.toList)
    (named : IsName className) (plain : isModifierKeyword className = false)
    (worded : ∀ line ∈ lines, line.Worded) :
    ∃ stub body, parseMember text className d = .ok (.constructor stub) ∧
      stub.body = some body ∧ List.Forall₂ BodyLine.ReadAs lines body.statements := by
  obtain ⟨src, c, run, rfl, here⟩ := Parser.run_of_pieces
    ((Piece.flatMap_text_asCut _).trans whole) (allStand_stubPieces (.inl named) worded).fit
    (Parser.member className) d
  obtain ⟨stub, body, c', read, same, statements, empty⟩ :=
    Parser.member_stubPieces named plain worded here
  refine ⟨stub, body, ?_, same, statements⟩
  rw [parseMember, run, read]
  simp only [bind, Except.bind, empty]
  rfl

theorem parseMember_stub {text className : String} {lines : List BodyLine} {d : Dialect}
    (whole : (stubPieces d className lines).flatMap Piece.text = text.toList)
    (named : IsName className) (plain : isModifierKeyword className = false)
    (proper : ∀ line ∈ lines, line.Proper) :
    ∃ stub body, parseMember text className d = .ok (.constructor stub) ∧
      stub.body = some body ∧
      body.statements.map Statement.unspanned = lines.map BodyLine.statement := by
  obtain ⟨stub, body, read, same, statements⟩ := parseMember_words whole named plain
    fun line member => (proper line member).worded
  exact ⟨stub, body, read, same, BodyLine.map_unspanned_of_readAs proper statements⟩

namespace Options

/-- Inherited parameters with a class's own, which stand last, but in front of an inherited one that
takes a variable number of arguments. -/
def withOwn (inherited own : List Param) : List Param :=
  match inherited.getLast? with
  | some last => if last.varargs then inherited.dropLast ++ own ++ [last] else inherited ++ own
  | none => own

/-- The parameters of the base constructor, one without a name named by its place. There are none
without a base, and none for an enum. -/
def inheritedParams (c : ClassDescriptor) (base : Option BaseConstructor) : List Param :=
  match base, c.superclass with
  | some base, some superclass =>
      if superclass.isEnum then []
      else base.params.mapIdx fun i p =>
        ⟨p.modifiers, p.type, p.name.getD s!"arg{i}", p.varargs, Span.none⟩
  | _, _ => []

/-- Each field has a parameter of its own, named apart from those in front of it. -/
def OwnParams (options : Options) (inherited : List Param) (fields : List FieldDescriptor)
    (own : List Param) : Prop :=
  own.length = fields.length ∧ ∀ i f p, fields[i]? = some f → own[i]? = some p →
    options.fieldParam ((withOwn inherited (own.take i)).map (·.name)) f = .ok p

theorem fieldParam_varargs {options : Options} {taken : List String} {f : FieldDescriptor}
    {p : Param} (made : options.fieldParam taken f = .ok p) : p.varargs = false := by
  unfold fieldParam at made
  split at made
  · cases made
  · split at made
    · cases made
    · cases made
      rfl

theorem withOwn_concat (before : List Param) (last : Param) (own : List Param) :
    withOwn (before ++ [last]) own =
      if last.varargs then before ++ own ++ [last] else before ++ [last] ++ own := by
  simp [withOwn]

theorem withOwn_nil (inherited : List Param) : withOwn inherited [] = inherited := by
  rcases List.eq_nil_or_concat inherited with rfl | ⟨before, last, rfl⟩
  · rfl
  · rw [List.concat_eq_append, withOwn_concat]
    split <;> simp

theorem addParam_eq_withOwn (inherited : List Param) (p : Param) :
    addParam inherited p = withOwn inherited [p] := by
  unfold addParam withOwn
  cases inherited.getLast? with
  | none => rfl
  | some last => simp

theorem withOwn_addParam {p : Param} (fixed : p.varargs = false) (inherited own : List Param) :
    withOwn (addParam inherited p) own = withOwn inherited (p :: own) := by
  rw [addParam_eq_withOwn]
  rcases List.eq_nil_or_concat inherited with rfl | ⟨before, last, rfl⟩
  · simp [withOwn, fixed]
  · rw [List.concat_eq_append, withOwn_concat, withOwn_concat]
    split
    · rename_i varargs
      rw [withOwn_concat, if_pos varargs]
      simp
    · rw [withOwn_concat, if_neg (by simp [fixed])]
      simp

theorem addFieldParams_ok {options : Options} {fields : List FieldDescriptor}
    {inherited all own : List Param}
    (added : options.addFieldParams inherited fields = .ok (all, own)) :
    all = withOwn inherited own ∧ options.OwnParams inherited fields own := by
  induction fields generalizing inherited all own with
  | nil =>
    cases added
    exact ⟨(withOwn_nil _).symm, rfl, nofun⟩
  | cons f fields ih =>
    simp only [addFieldParams, bind, Except.bind] at added
    split at added
    · cases added
    · rename_i p made
      split at added
      · cases added
      · rename_i found more
        obtain ⟨later, others⟩ := found
        cases added
        obtain ⟨placed, length, each⟩ := ih more
        have fixed := fieldParam_varargs made
        refine ⟨placed.trans (withOwn_addParam fixed inherited others), ?_, ?_⟩
        · simp [length]
        · intro i g q field param
          cases i with
          | zero =>
            cases field
            cases param
            rw [List.take_zero, withOwn_nil]
            exact made
          | succ i =>
            rw [List.take_succ_cons, ← withOwn_addParam fixed]
            exact each i g q field param

theorem mapM_eq_ok_iff {α β ε : Type} {f : α → Except ε β} {as : List α} {bs : List β} :
    as.mapM f = .ok bs ↔ List.Forall₂ (fun a b => f a = .ok b) as bs := by
  induction as generalizing bs with
  | nil => cases bs <;> simp [pure, Except.pure]
  | cons a as ih =>
    rw [List.mapM_cons]
    cases first : f a with
    | error e => cases bs <;> simp [bind, Except.bind, first]
    | ok b =>
      cases others : as.mapM f with
      | error e => cases bs <;> simp [bind, Except.bind, ← ih, first, others]
      | ok more => cases bs <;> simp [bind, Except.bind, pure, Except.pure, ← ih, first, others]

theorem exists_of_mapM_eq_error {α β ε : Type} {f : α → Except ε β} {as : List α} {e : ε}
    (failed : as.mapM f = .error e) : ∃ a ∈ as, f a = .error e := by
  induction as with
  | nil => cases failed
  | cons a as ih =>
    rw [List.mapM_cons] at failed
    cases first : f a with
    | error e' =>
      rw [first] at failed
      cases failed
      exact ⟨a, List.mem_cons_self, first⟩
    | ok b =>
      rw [first] at failed
      cases others : as.mapM f with
      | error e' =>
        simp only [bind, Except.bind, others] at failed
        cases failed
        obtain ⟨a', among, fails⟩ := ih others
        exact ⟨a', List.mem_cons_of_mem a among, fails⟩
      | ok bs =>
        simp only [bind, Except.bind, others] at failed
        cases failed

theorem mapM_ok {α β ε : Type} {f : α → Except ε β} {g : α → β}
    (answers : ∀ a b, f a = .ok b → b = g a) {as : List α} {bs : List β}
    (found : as.mapM f = .ok bs) : bs = as.map g := by
  have each := mapM_eq_ok_iff.mp found
  clear found
  induction each with
  | nil => rfl
  | cons first _ ih => rw [List.map_cons, ← answers _ _ first, ← ih]

theorem namedParams_ok {base : BaseConstructor} {params : List Param}
    (named : base.namedParams = .ok params) :
    params = base.params.mapIdx fun i p =>
      ⟨p.modifiers, p.type, p.name.getD s!"arg{i}", p.varargs, Span.none⟩ := by
  rw [BaseConstructor.namedParams] at named
  have each := mapM_ok
    (g := fun pair => (⟨pair.2.modifiers, pair.2.type, pair.1, pair.2.varargs, Span.none⟩ : Param))
    ?_ named
  · rw [each, List.mapIdx_eq_zipIdx_map, List.map_map, List.mapIdx_eq_zipIdx_map]
    rfl
  · rintro ⟨name, p⟩ q made
    simp only at made
    split at made
    · cases made
    · split at made
      · cases made
      · cases made
        rfl

theorem baseParams_ok {c : ClassDescriptor} {base : Option BaseConstructor}
    {inherited : List Param} {typeParams : List TypeParam}
    (taken : baseParams c base = .ok (inherited, typeParams)) :
    inherited = inheritedParams c base := by
  cases base with
  | none =>
    cases taken
    rfl
  | some base =>
    unfold baseParams at taken
    cases superclass : c.superclass with
    | none =>
      simp only [superclass] at taken
      cases taken
    | some found =>
      simp only [superclass] at taken
      cases isEnum : found.isEnum with
      | true =>
        rw [isEnum] at taken
        cases taken
        simp [inheritedParams, superclass, isEnum]
      | false =>
        rw [isEnum, if_neg Bool.false_ne_true] at taken
        cases named : base.namedParams with
        | error e =>
          rw [named] at taken
          cases taken
        | ok params =>
          rw [named] at taken
          cases taken
          simp [inheritedParams, superclass, isEnum, namedParams_ok named]

theorem prototype_ok {options : Options} {c : ClassDescriptor} {base : Option BaseConstructor}
    {fields : List FieldDescriptor} {m : MethodDecl}
    (generated : options.prototype c base fields = .ok m) :
    ∃ own body, options.OwnParams (inheritedParams c base) fields own ∧
      m.params = (withOwn (inheritedParams c base) own).map
        (fun p => { p with modifiers := p.modifiers.normalize }) ∧
      options.readBody c.name
        ((((BodyText.empty.start options.target c.name []).superCall options.target
          (inheritedParams c base)).assignFields options.target fields own
          ((withOwn (inheritedParams c base) own).map (·.name))).finish.text) = .ok body ∧
      m.body = body.map Block.normalize := by
  simp only [prototype, bind, Except.bind] at generated
  split at generated
  · cases generated
  · rename_i taken found
    obtain ⟨inherited, typeParams⟩ := taken
    have same := baseParams_ok found
    split at generated
    · cases generated
    · rename_i added more
      obtain ⟨all, own⟩ := added
      obtain ⟨placed, each⟩ := addFieldParams_ok more
      split at generated
      · cases generated
      · rename_i body read
        cases generated
        subst same placed
        exact ⟨own, body, each, rfl, read, rfl⟩

theorem mem_withOwn {inherited own : List Param} {p : Param} :
    p ∈ withOwn inherited own ↔ p ∈ inherited ∨ p ∈ own := by
  rcases List.eq_nil_or_concat inherited with rfl | ⟨before, last, rfl⟩
  · simp [withOwn]
  · rw [List.concat_eq_append, withOwn_concat]
    split
    · simp only [List.mem_append, List.mem_singleton, or_assoc]
      rw [or_comm (a := p ∈ own)]
    · simp only [List.mem_append]

end Options

theorem Statement.unspanned_normalize (s : Statement) :
    s.normalize.unspanned = s.unspanned.normalize := by
  cases s <;> rfl

theorem BodyLine.normalize_statement {line : BodyLine} (proper : line.Proper) :
    line.statement.normalize = line.statement := by
  have kept : ∀ {name : String}, IsName name → trimmed name = name := by
    intro name isName
    rw [trimmed, ← List.nil_append name.toList, trim_append_word rfl (.inl isName), String.ofList_toList]
  cases line with
  | superCall names =>
    have each : names.map trimmed = names := by
      rw [List.map_congr_left fun name member => kept (proper.2 name member), List.map_id']
    rw [statement, Statement.normalize, each]
  | assign qualified field param => rw [statement, Statement.normalize, kept proper.2]

theorem Block.normalize_of_lines {body : Block} {lines : List BodyLine}
    (proper : ∀ line ∈ lines, line.Proper)
    (read : body.statements.map Statement.unspanned = lines.map BodyLine.statement) :
    body.normalize.statements.map Statement.unspanned = lines.map BodyLine.statement := by
  have commuted : body.normalize.statements.map Statement.unspanned =
      (body.statements.map Statement.unspanned).map Statement.normalize := by
    simp [Block.normalize, Statement.unspanned_normalize]
  rw [commuted, read, List.map_map]
  exact List.map_congr_left fun line member => BodyLine.normalize_statement (proper line member)

namespace Options

theorem proper_bodyLines {inherited own : List Param} {fields : List FieldDescriptor}
    (taken : List String) (fieldNames : ∀ f ∈ fields, IsName f.name)
    (paramNames : ∀ p ∈ withOwn inherited own, IsName p.name) :
    ∀ line ∈ bodyLines inherited fields own taken, line.Proper := by
  intro line member
  rcases List.mem_append.mp member with call | assignment
  · split at call
    · cases call
    · rename_i some
      rw [List.mem_singleton.mp call]
      refine ⟨by simpa using some, fun name named => ?_⟩
      obtain ⟨p, inside, rfl⟩ := List.mem_map.mp named
      exact paramNames p (mem_withOwn.mpr (.inl inside))
  · obtain ⟨⟨f, p⟩, inside, rfl⟩ := List.mem_map.mp assignment
    obtain ⟨ofField, ofOwn⟩ := List.of_mem_zip inside
    exact ⟨fieldNames f ofField, paramNames p (mem_withOwn.mpr (.inr ofOwn))⟩

/-- A generated constructor takes the inherited parameters, and one for each field in their order,
which stand in front of an inherited one that takes a variable number of arguments. Its body calls
the superclass with all inherited parameters, if there are any, and assigns each field from its own
parameter, behind `this` just if some parameter has the name of the field. -/
theorem prototype_params_and_body {options : Options} {c : ClassDescriptor}
    {base : Option BaseConstructor} {fields : List FieldDescriptor} {m : MethodDecl}
    (generated : options.prototype c base fields = .ok m)
    (className : LexesAsName c.name) (plain : isModifierKeyword c.name = false)
    (fieldNames : ∀ f ∈ fields, LexesAsName f.name)
    (paramNames : ∀ p ∈ m.params, LexesAsName p.name) :
    ∃ own body, options.OwnParams (inheritedParams c base) fields own ∧
      m.params = (withOwn (inheritedParams c base) own).map
        (fun p => { p with modifiers := p.modifiers.normalize }) ∧
      m.body = some body ∧
      body.statements.map Statement.unspanned =
        (if inheritedParams c base = [] then []
          else [.superCall ((inheritedParams c base).map (·.name)) Span.none]) ++
        (fields.zip own).map fun pair =>
          .assign (decide (pair.1.name ∈ m.params.map (·.name))) pair.1.name pair.2.name
            Span.none := by
  obtain ⟨own, read, each, params, fromText, body⟩ := prototype_ok generated
  have names : m.params.map (·.name) = (withOwn (inheritedParams c base) own).map (·.name) := by
    rw [params, List.map_map]
    rfl
  have allNames : ∀ p ∈ withOwn (inheritedParams c base) own, IsName p.name := by
    intro p member
    have named : p.name ∈ m.params.map (·.name) := by
      rw [names]
      exact List.mem_map_of_mem member
    obtain ⟨q, inside, same⟩ := List.mem_map.mp named
    rw [← same]
    exact isName_of_lexesAsName (paramNames q inside)
  have proper := proper_bodyLines ((withOwn (inheritedParams c base) own).map (·.name))
    (fun f member => isName_of_lexesAsName (fieldNames f member)) allNames
  obtain ⟨stub, block, parsed, same, statements⟩ := parseMember_stub
    (text_of_generated options.target c.name (inheritedParams c base) fields own _).symm
    (isName_of_lexesAsName className) plain proper
  rw [readBody, parsed] at fromText
  cases fromText
  refine ⟨own, block.normalize, each, params, by rw [body, same]; rfl, ?_⟩
  rw [Block.normalize_of_lines proper statements, bodyLines, List.map_append, List.map_map, names]
  congr 1
  · split <;> rfl
  · refine List.map_congr_left fun pair member => ?_
    obtain ⟨f, p⟩ := pair
    have inside : p.name ∈ (withOwn (inheritedParams c base) own).map (·.name) :=
      List.mem_map_of_mem (mem_withOwn.mpr (.inr (List.of_mem_zip member).2))
    -- A field named like its own parameter is named like one of all parameters.
    have qualified : (f.name = p.name ∨
        f.name ∈ (withOwn (inheritedParams c base) own).map (·.name)) ↔
        f.name ∈ (withOwn (inheritedParams c base) own).map (·.name) := by
      constructor
      · rintro (same | other)
        · rw [same]
          exact inside
        · exact other
      · exact .inr
    simp only [Function.comp, BodyLine.statement, qualified]

/-- A base constructor whose last parameter takes a variable number of arguments. -/
def sampleBase : BaseConstructor where
  params := [⟨some "x", .simple "int", .empty, false⟩, ⟨none, .simple "String", .empty, true⟩]
  throws := []
  typeParams := []
  doc := none
  visibility := .pub
  origin := .source

def sampleClass : ClassDescriptor where
  name := "Child"
  qualifiedName := "Child"
  kind := .ordinary
  visibility := .pub
  typeParams := []
  superclass := some ⟨"Base", [], [], [sampleBase]⟩
  existingConstructors := []
  members := []

/-- One field is named like an inherited parameter. -/
def sampleFields : List FieldDescriptor :=
  [.ofType "x" (.simple "int"), .ofType "y" (.simple "int")]

def sampleConstructor : MethodDecl where
  modifiers := ⟨["public"], [.marker "com.fasterxml.jackson.annotation.JsonCreator"]⟩
  typeParams := []
  returnType := none
  name := "Child"
  params :=
    let named (property : String) : Modifiers :=
      ⟨[], [.withLiteral "com.fasterxml.jackson.annotation.JsonProperty" property]⟩
    [⟨.empty, .simple "int", "x", false, Span.none⟩,
     ⟨named "x", .simple "int", "x1", false, Span.none⟩,
     ⟨named "y", .simple "int", "y", false, Span.none⟩,
     ⟨.empty, .simple "String", "arg1", true, Span.none⟩]
  throws := []
  body := some ⟨[.superCall ["x", "arg1"] ⟨21, 36⟩, .assign true "x" "x1" ⟨41, 53⟩,
    .assign true "y" "y" ⟨58, 69⟩], ⟨15, 71⟩⟩
  doc := none
  span := Span.none

theorem prototype_of_sample :
    Options.standard.prototype sampleClass (some sampleBase) sampleFields = .ok sampleConstructor ∧
    ∃ own body,
      Options.standard.OwnParams (inheritedParams sampleClass (some sampleBase)) sampleFields own ∧
      sampleConstructor.params = (withOwn (inheritedParams sampleClass (some sampleBase)) own).map
        (fun p => { p with modifiers := p.modifiers.normalize }) ∧
      sampleConstructor.body = some body ∧
      body.statements.map Statement.unspanned =
        .superCall ["x", "arg1"] Span.none :: (sampleFields.zip own).map fun pair =>
          .assign true pair.1.name pair.2.name Span.none := by
  have generated : Options.standard.prototype sampleClass (some sampleBase) sampleFields =
      .ok sampleConstructor := eq_ok_of_toOption (by decide +kernel)
  obtain ⟨own, body, each, params, same, statements⟩ := prototype_params_and_body generated
    (by decide) (by decide) (by decide) (by decide)
  refine ⟨generated, own, body, each, params, same, statements.trans ?_⟩
  have inherited : inheritedParams sampleClass (some sampleBase) =
      [⟨.empty, .simple "int", "x", false, Span.none⟩,
       ⟨.empty, .simple "String", "arg1", true, Span.none⟩] := by decide
  rw [inherited, if_neg (List.cons_ne_nil _ _)]
  have named : ∀ f ∈ sampleFields, f.name ∈ sampleConstructor.params.map (·.name) := by decide
  refine congrArg _ (List.map_congr_left fun pair member => ?_)
  rw [decide_eq_true (named pair.1 (List.of_mem_zip member).1)]

end Options

end CreatorSynth
