import CreatorSynth.Proofs.Creator.Identifiers
import CreatorSynth.Proofs.Creator.UnreadNames
import CreatorSynth.Proofs.Model.Words

/-! Which generated bodies do not read back. Fields and parameters of sources that were read are
called by words, and so are the parameters made for them, so it is the name of the class alone that
decides: in front of a parenthesis the words `record` and `sealed` are not taken for the name of a
constructor. -/
namespace CreatorSynth
open Text

section Words

theorem isNamePart_of_isDigit {c : Char} (digit : c.isDigit = true) : isNamePart c = true := by
  have parts := of_ascii (fun c => !c.isDigit || isNamePart c) (by decide +kernel)
    (isAscii_of_isDigit digit)
  simpa [digit] using parts

theorem Keyword.ofText?_numbered (candidate : String) (n : Nat) :
    ofText? (candidate ++ toString n) = none := by
  have words : ∀ word ∈ all, word.text.toList.getLast?.any Char.isDigit = false := by
    decide
  refine List.find?_eq_none.mpr fun word member same => ?_
  exact ne_numbered (words word member) candidate n (beq_iff_eq.mp same)

namespace IsWord

variable {s : String}

theorem numbered (word : IsWord s) (n : Nat) : IsName (s ++ toString n) := by
  obtain ⟨c, cs, shape, start, parts⟩ := word.shape
  refine ⟨⟨c, cs ++ (toString n).toList, ?_, start, ?_⟩, Keyword.ofText?_numbered s n⟩
  · rw [String.toList_append, shape, List.cons_append]
  · rw [List.all_append, parts, Bool.true_and, List.all_eq_true]
    exact fun d member => isNamePart_of_isDigit (isDigit_of_mem_toString member)

theorem uniquify (word : IsWord s) (taken : List String) : IsWord (uniquify s taken) := by
  by_cases used : isReserved s = true ∨ s ∈ taken
  · obtain ⟨k, _, _, found, _, _⟩ := uniquify_of_taken used
    rw [found]
    exact .inl (word.numbered k)
  · obtain ⟨unreserved, free⟩ := not_or.mp used
    rwa [uniquify_of_free (eq_false_of_ne_true unreserved) free]

end IsWord

end Words

namespace NamingConventions

@[simp] theorem propertyOfField_plain (field : String) : plain.propertyOfField field = field := by
  simp [propertyOfField, plain, strip?]

@[simp] theorem parameterOfProperty_plain (property : String) :
    plain.parameterOfProperty property = property := by
  simp [parameterOfProperty, plain]

end NamingConventions

namespace Options

variable {options : Options} {c : ClassDescriptor} {base : Option BaseConstructor}
  {fields : List FieldDescriptor} {inherited own : List Param} {selection : List Candidate}
  {found : List MethodDecl} {e : ParseError}

section Failures

theorem fieldParam_ne_parse {taken : List String} {f : FieldDescriptor} :
    options.fieldParam taken f ≠ .error (.parse e) := by
  unfold fieldParam
  split
  · nofun
  · split <;> nofun

theorem addFieldParams_ne_parse : options.addFieldParams inherited fields ≠ .error (.parse e) := by
  induction fields generalizing inherited with
  | nil => nofun
  | cons f fields ih =>
    intro failed
    simp only [addFieldParams, bind, Except.bind] at failed
    split at failed
    · rename_i first
      cases failed
      exact fieldParam_ne_parse first
    · split at failed
      · rename_i others
        cases failed
        exact ih others
      · cases failed

theorem namedParams_ne_parse {b : BaseConstructor} : b.namedParams ≠ .error (.parse e) := by
  intro failed
  obtain ⟨⟨name, p⟩, _, fails⟩ := exists_of_mapM_eq_error failed
  simp only at fails
  split at fails
  · cases fails
  · split at fails <;> cases fails

theorem baseParams_ne_parse : baseParams c base ≠ .error (.parse e) := by
  unfold baseParams
  split
  · nofun
  · rename_i b
    split
    · nofun
    · split
      · nofun
      · intro failed
        cases named : b.namedParams with
        | error e' =>
          rw [named] at failed
          cases failed
          exact namedParams_ne_parse named
        | ok params =>
          rw [named] at failed
          cases failed

theorem readBody_of_prototype_eq_parse
    (failed : options.prototype c base fields = .error (.parse e)) :
    ∃ own, options.OwnParams (inheritedParams c base) fields own ∧
      options.readBody c.name
        ((((BodyText.empty.start options.target c.name []).superCall options.target
          (inheritedParams c base)).assignFields options.target fields own
          ((withOwn (inheritedParams c base) own).map (·.name))).finish.text) =
        .error (.parse e) := by
  simp only [prototype, bind, Except.bind] at failed
  split at failed
  · rename_i taken
    cases failed
    exact absurd taken baseParams_ne_parse
  · rename_i taken found
    obtain ⟨inherited, typeParams⟩ := taken
    have same := baseParams_ok found
    split at failed
    · rename_i added
      cases failed
      exact absurd added addFieldParams_ne_parse
    · rename_i added more
      obtain ⟨all, own⟩ := added
      obtain ⟨placed, each⟩ := addFieldParams_ok more
      split at failed
      · rename_i read
        cases failed
        subst same placed
        exact ⟨own, each, read⟩
      · cases failed

/-- The base constructor, if there is one, is a selected one as some class sees it. -/
def Draws (selection : List Candidate) (base : Option BaseConstructor) : Prop :=
  ∀ b ∈ base, ∃ given ∈ selection.filterMap Candidate.base?, ∃ view, b = given.substitute view

theorem draws_substitute {b : BaseConstructor} (view : Substitution)
    (among : b ∈ selection.filterMap Candidate.base?) :
    Draws selection (some (b.substitute view)) :=
  fun _ same => ⟨b, among, view, Option.some.inj same.symm⟩

theorem prototype_of_generate_eq_parse
    (failed : options.generate c selection = .error (.parse e)) :
    isIdentifier c.name = true ∧ ∃ base, Draws selection base ∧
      options.prototype c base (selection.filterMap Candidate.field?) = .error (.parse e) := by
  have answered := generate_answered options c selection
  generalize options.generate c selection = answer at answered failed
  cases answered with
  | badName => cases failed
  | orphan => cases failed
  | single valid _ =>
    cases drawn : options.prototype c none (selection.filterMap Candidate.field?) with
    | error e' =>
      rw [drawn] at failed
      cases failed
      exact ⟨valid, none, nofun, drawn⟩
    | ok m =>
      rw [drawn] at failed
      cases failed
  | @each superclass valid _ _ =>
    cases drawn : (selection.filterMap Candidate.base?).mapM fun base =>
        options.prototype c (some (base.substitute (.ofSuperclass superclass)))
          (selection.filterMap Candidate.field?) with
    | error e' =>
      rw [drawn] at failed
      cases failed
      obtain ⟨b, among, fails⟩ := exists_of_mapM_eq_error drawn
      exact ⟨valid, _, draws_substitute _ among, fails⟩
    | ok ms =>
      rw [drawn] at failed
      cases failed

theorem prototype_of_generate_eq_ok (generated : options.generate c selection = .ok found) :
    ∃ base m, Draws selection base ∧
      options.prototype c base (selection.filterMap Candidate.field?) = .ok m := by
  have answered := generate_answered options c selection
  generalize options.generate c selection = answer at answered generated
  cases answered with
  | badName => cases generated
  | orphan => cases generated
  | single _ _ =>
    cases drawn : options.prototype c none (selection.filterMap Candidate.field?) with
    | error e =>
      rw [drawn] at generated
      cases generated
    | ok m => exact ⟨none, m, nofun, drawn⟩
  | @each superclass _ selected _ =>
    cases drawn : (selection.filterMap Candidate.base?).mapM fun base =>
        options.prototype c (some (base.substitute (.ofSuperclass superclass)))
          (selection.filterMap Candidate.field?) with
    | error e =>
      rw [drawn] at generated
      cases generated
    | ok ms =>
      obtain ⟨b, among⟩ := List.exists_mem_of_ne_nil _ selected
      obtain ⟨m, _, made⟩ := exists_of_forall₂ (mapM_eq_ok_iff.mp drawn).flip among
      exact ⟨_, m, draws_substitute _ among, made⟩

end Failures

section Worded

theorem isWord_inherited (worded : ∀ b ∈ base, b.Worded) :
    ∀ p ∈ inheritedParams c base, IsWord p.name := by
  have argument : IsName "arg" := isName_of_lexesAsName (by decide)
  unfold inheritedParams
  split
  · rename_i b superclass _
    split
    · nofun
    · intro p member
      obtain ⟨i, inside, rfl⟩ := List.mem_mapIdx.mp member
      cases named : (b.params[i]).name with
      | none => exact .inl (IsWord.numbered (.inl argument) i)
      | some name => exact worded b rfl _ (List.getElem_mem inside) name named
  · nofun

theorem isWord_own (plain : options.naming = .plain) (words : ∀ f ∈ fields, IsWord f.name)
    (each : options.OwnParams inherited fields own) : ∀ p ∈ own, IsWord p.name := by
  intro p member
  obtain ⟨f, among, taken, made⟩ := exists_of_forall₂ each.forall₂ member
  rw [(fieldParam_name made).2, plain, NamingConventions.propertyOfField_plain,
    NamingConventions.parameterOfProperty_plain]
  exact (words f among).uniquify taken

theorem worded_bodyLines (naming : options.naming = .plain)
    (fieldWords : ∀ f ∈ fields, IsWord f.name) (baseWords : ∀ b ∈ base, b.Worded)
    (each : options.OwnParams (inheritedParams c base) fields own) (taken : List String) :
    ∀ line ∈ bodyLines (inheritedParams c base) fields own taken, line.Worded := by
  intro line member
  rcases List.mem_append.mp member with call | assignment
  · split at call
    · cases call
    · rename_i some
      rw [List.mem_singleton.mp call]
      refine ⟨by simpa using some, fun name named => ?_⟩
      obtain ⟨p, inside, rfl⟩ := List.mem_map.mp named
      exact isWord_inherited baseWords p inside
  · obtain ⟨⟨f, p⟩, inside, rfl⟩ := List.mem_map.mp assignment
    obtain ⟨ofField, ofOwn⟩ := List.of_mem_zip inside
    exact ⟨fieldWords f ofField, isWord_own naming fieldWords each p ofOwn⟩

theorem isWord_selected (worded : ∀ m ∈ selection, m.Worded) :
    ∀ f ∈ selection.filterMap Candidate.field?, IsWord f.name := by
  intro f member
  obtain ⟨candidate, selected, same⟩ := List.mem_filterMap.mp member
  cases candidate <;> cases same
  exact worded _ selected

theorem Draws.worded (draws : Draws selection base) (worded : ∀ m ∈ selection, m.Worded) :
    ∀ b ∈ base, b.Worded := by
  intro b given
  obtain ⟨b', member, view, rfl⟩ := draws b given
  obtain ⟨candidate, selected, same⟩ := List.mem_filterMap.mp member
  cases candidate <;> cases same
  exact BaseConstructor.Worded.mapTypes (worded _ selected) _

theorem prototype_ne_parse (naming : options.naming = .plain) (named : IsName c.name)
    (plain : isModifierKeyword c.name = false) (fieldWords : ∀ f ∈ fields, IsWord f.name)
    (baseWords : ∀ b ∈ base, b.Worded) : options.prototype c base fields ≠ .error (.parse e) := by
  intro failed
  obtain ⟨own, each, unread⟩ := readBody_of_prototype_eq_parse failed
  obtain ⟨stub, body, read, _⟩ := parseMember_words
    (text_of_generated options.target c.name (inheritedParams c base) fields own _).symm named plain
    (worded_bodyLines naming fieldWords baseWords each _)
  rw [readBody, read] at unread
  cases unread

theorem prototype_ne_ok (naming : options.naming = .plain) (unread : c.name ∈ unreadNames)
    (fieldWords : ∀ f ∈ fields, IsWord f.name) (baseWords : ∀ b ∈ base, b.Worded)
    {m : MethodDecl} : options.prototype c base fields ≠ .ok m := by
  intro generated
  obtain ⟨own, body, each, _, read, _⟩ := prototype_ok generated
  obtain ⟨e, failed⟩ := parseMember_unread
    (text_of_generated options.target c.name (inheritedParams c base) fields own _).symm unread
    (worded_bodyLines naming fieldWords baseWords each _)
  rw [readBody, failed] at read
  cases read

end Worded

section Described

variable {units : List CompilationUnit} {unit : CompilationUnit} {id : ClassId}

/-- Of the words for modifiers only `sealed` can be an identifier. -/
theorem isModifierKeyword_of_isIdentifier {name : String} (valid : isIdentifier name = true)
    (other : name ∉ unreadNames) : isModifierKeyword name = false := by
  have words : ∀ word ∈ modifierOrder, isIdentifier word = true → word ∈ unreadNames := by
    decide
  refine eq_false_of_ne_true fun known => other ?_
  exact words name (List.contains_iff_mem.mp known) valid

theorem isName_of_isWord {name : String} (word : IsWord name) (other : name ∉ unreadNames) :
    IsName name :=
  word.isName fun same => other (same ▸ List.mem_cons_self)

theorem generate_nil_eq_parse (unread : c.name ∈ unreadNames) :
    ∃ e, options.generate c [] = .error (.parse e) := by
  have valid : ∀ name ∈ unreadNames, isIdentifier name = true := by decide
  obtain ⟨e, failed⟩ := parseMember_unread
    (text_of_generated options.target c.name [] [] [] []).symm unread nofun
  have single : options.prototype c none [] = .error (.parse e) := by
    simp only [prototype, baseParams, addFieldParams, bind, Except.bind, readBody, List.map_nil,
      failed]
  refine ⟨e, ?_⟩
  simp only [generate, valid _ unread, List.filterMap_nil, bind, Except.bind, single]
  rfl

/-- Let a class be described among sources that were read, and names be taken as they are. Whatever
is selected of what the class offers, the generated body reads back, in either dialect, just if the
class is not called by one of two words. For a class called so no constructor can be generated. -/
theorem generate_reads_back_iff (indexed : ∀ u ∈ units, ∃ text d, parseUnit text d = .ok u)
    (own : ∃ text d, parseUnit text d = .ok unit)
    (described : (ClassIndex.ofUnits units).describe? unit id = some c)
    (naming : options.naming = .plain) :
    ((∀ selection ⊆ c.members, ∀ e, options.generate c selection ≠ .error (.parse e)) ↔
      c.name ∉ unreadNames) ∧
    (c.name ∈ unreadNames →
      ∀ selection ⊆ c.members, ∀ found, options.generate c selection ≠ .ok found) := by
  have wordedUnits : ∀ e ∈ (ClassIndex.ofUnits units).entries, e.unit.Worded := by
    intro e entered
    obtain ⟨text, d, read⟩ := indexed e.unit (ClassIndex.mem_of_mem_entries entered)
    exact parseUnit_worded read
  obtain ⟨text, d, read⟩ := own
  obtain ⟨word, offered⟩ := worded_describe? wordedUnits (parseUnit_worded read) described
  refine ⟨⟨fun reads unread => ?_, fun other selection among e failed => ?_⟩,
    fun unread selection among found generated => ?_⟩
  · obtain ⟨e, failed⟩ := generate_nil_eq_parse unread
    exact reads [] (List.nil_subset _) e failed
  · have worded : ∀ m ∈ selection, m.Worded := fun m member => offered m (among member)
    obtain ⟨valid, base, draws, failed⟩ := prototype_of_generate_eq_parse failed
    exact prototype_ne_parse naming (isName_of_isWord word other)
      (isModifierKeyword_of_isIdentifier valid other) (isWord_selected worded)
      (draws.worded worded) failed
  · have worded : ∀ m ∈ selection, m.Worded := fun m member => offered m (among member)
    obtain ⟨base, m, draws, made⟩ := prototype_of_generate_eq_ok generated
    exact prototype_ne_ok naming unread (isWord_selected worded) (draws.worded worded) made

/-- What keeps a constructor with all members from being generated for the first class of a
source. -/
def fault? (source : String) (target : Dialect) : Option GenerateError :=
  (parseUnit source .java).toOption.bind fun u =>
    ((ClassIndex.ofUnits [u]).describe? u 0).bind fun c =>
      match { standard with target := target }.generate c c.members with
      | .error fault => some fault
      | .ok _ => none

/-- The name is an identifier, and yet the error is not that it is no valid name of a class. -/
theorem record_class_unread :
    let source := "class record \x7b\n    int x;\n\x7d\n"
    isIdentifier "record" = true ∧
      fault? source .java = some (.parse (.unexpected 13 .identifier (some (.symbol .lparen)))) ∧
      fault? source .groovy = some (.parse (.unexpected 6 .identifier (some (.symbol .lparen)))) := by
  decide +kernel

end Described

end Options

end CreatorSynth
