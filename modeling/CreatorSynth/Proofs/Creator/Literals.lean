import CreatorSynth.Proofs.Creator.ParamNames
import CreatorSynth.Proofs.Token.Raw
import CreatorSynth.Proofs.Token.Strings

/-! String literals. Whatever a text holds, the literal written for it is a token of its own and
means that text again, also where it is the only argument of an annotation. So the name of the
property is read off a generated parameter as it was attached. -/
namespace CreatorSynth
open Text

namespace Literal

theorem escape_cases (c : Char) :
    (∃ d, escape c = ['\\', d] ∧ escaped d = c ∧ d ≠ '\n') ∨
      (escape c = [c] ∧ c ≠ '"' ∧ c ≠ '\\' ∧ c ≠ '\n') := by
  unfold escape
  split
  · exact .inl ⟨'"', rfl, rfl, by decide⟩
  · exact .inl ⟨'\\', rfl, rfl, by decide⟩
  · exact .inl ⟨'n', rfl, rfl, by decide⟩
  · exact .inl ⟨'t', rfl, rfl, by decide⟩
  · exact .inl ⟨'r', rfl, rfl, by decide⟩
  · rename_i quote slash feed _ _
    exact .inr ⟨rfl, quote, slash, feed⟩

theorem unescape_cons_of_ne {c : Char} (other : c ≠ '\\') (rest : List Char) :
    unescape (c :: rest) = (unescape rest).map (c :: ·) := by
  rw [unescape]
  · intro last
    exact absurd last other
  · intro d ds behind
    exact absurd behind other

theorem unescape_escape (c : Char) (rest : List Char) :
    unescape (escape c ++ rest) = (unescape rest).map (c :: ·) := by
  rcases escape_cases c with ⟨d, shape, meant, _⟩ | ⟨shape, _, slash, _⟩
  · rw [shape]
    simp [unescape, meant]
  · rw [shape, List.singleton_append, unescape_cons_of_ne slash]

theorem unescape_flatMap_escape (cs : List Char) : unescape (cs.flatMap escape) = some cs := by
  induction cs with
  | nil => rfl
  | cons c cs ih => rw [List.flatMap_cons, unescape_escape, ih, Option.map_some]

theorem enclosed_flatMap_escape (cs : List Char) : Enclosed (cs.flatMap escape) := by
  induction cs with
  | nil => exact .nil
  | cons c cs ih =>
    rw [List.flatMap_cons]
    rcases escape_cases c with ⟨d, shape, _, feed⟩ | ⟨shape, quote, slash, feed⟩
    · rw [shape]
      exact .escaped feed ih
    · rw [shape]
      exact .plain quote slash feed ih

theorem toList_quote (value : String) :
    (quote value).toList = '"' :: (value.toList.flatMap escape ++ ['"']) := by
  rw [quote, String.toList_ofList, List.cons_append]

theorem isString_quote (value : String) : IsString (quote value) :=
  ⟨_, enclosed_flatMap_escape value.toList, toList_quote value⟩

theorem tokenize_quote (value : String) :
    tokenize (quote value) =
      .ok [⟨.string (quote value), 0, (quote value).utf8ByteSize⟩] :=
  (isString_iff_tokenize.mp (isString_quote value)).1

theorem unquote?_quote (value : String) : unquote? (quote value) = some value := by
  rw [unquote?, toList_quote]
  simp [unescape_flatMap_escape]

theorem trim_quote (value : String) : trim (quote value).toList = (quote value).toList := by
  rw [toList_quote]
  refine trim_self ⟨?_, ?_⟩
  · intro c head
    cases head
    decide
  · intro c last
    rw [← List.cons_append, List.getLast?_concat] at last
    cases last
    decide

theorem ofArguments?_quote (value : String) : ofArguments? (quote value) = some value := by
  have unnamed : dropStart? "value".toList (quote value).toList = none := by
    rw [toList_quote]
    rfl
  simp only [ofArguments?, trim_quote, unnamed, Option.bind_some, String.ofList_toList]
  exact unquote?_quote value

end Literal

theorem Annotation.literal?_withLiteral (name value : String) :
    (withLiteral name value).literal? = some value := by
  rw [literal?, withLiteral, Option.bind_some, Literal.ofArguments?_quote]

namespace Options

variable {options : Options} {c : ClassDescriptor} {base : Option BaseConstructor}
  {fields : List FieldDescriptor} {m : MethodDecl}

/-- Among the annotations there is one that names the property. -/
def NamesProperty (options : Options) (property : String) (p : Param) : Prop :=
  ∃ a ∈ p.modifiers.annotations, a.name = options.propertyMark ∧ a.literal? = some property

theorem fieldParam_namesProperty {taken : List String} {f : FieldDescriptor} {p : Param}
    (made : options.fieldParam taken f = .ok p) :
    options.NamesProperty (options.naming.propertyOfField f.name) p := by
  unfold fieldParam at made
  split at made
  · cases made
  · split at made
    · cases made
    · cases made
      refine ⟨_, List.mem_append_right _ List.mem_cons_self, rfl, ?_⟩
      exact Annotation.literal?_withLiteral _ _

theorem OwnParams.namesProperty {inherited own : List Param}
    (each : options.OwnParams inherited fields own) {f : FieldDescriptor} (selected : f ∈ fields) :
    ∃ p ∈ own, options.NamesProperty (options.naming.propertyOfField f.name) p := by
  obtain ⟨i, inside, rfl⟩ := List.getElem_of_mem selected
  have short : i < own.length := by rw [each.1]; exact inside
  have made := each.2 i fields[i] own[i] (List.getElem?_eq_getElem inside)
    (List.getElem?_eq_getElem short)
  exact ⟨own[i], List.getElem_mem short, fieldParam_namesProperty made⟩

theorem prototype_namesProperty (generated : options.prototype c base fields = .ok m)
    {f : FieldDescriptor} (selected : f ∈ fields) :
    ∃ p ∈ m.params, options.NamesProperty (options.naming.propertyOfField f.name) p := by
  obtain ⟨own, _, each, params, _⟩ := prototype_ok generated
  obtain ⟨p, among, named⟩ := each.namesProperty selected
  have inside : p ∈ withOwn (inheritedParams c base) own :=
    (withOwn_perm _ _).mem_iff.mpr (List.mem_append_right _ among)
  refine ⟨{ p with modifiers := p.modifiers.normalize }, ?_, named⟩
  rw [params]
  exact List.mem_map_of_mem inside

end Options

/-- Every text is read back from the literal written for it: the literal is one token, it stands for
the text, and so does the annotation with the text for an argument. So a generated constructor names
the property of each of its fields, as the naming conventions have it. -/
theorem literal_read_back (name value : String) :
    tokenize (Literal.quote value) =
        .ok [⟨.string (Literal.quote value), 0, (Literal.quote value).utf8ByteSize⟩] ∧
      Literal.unquote? (Literal.quote value) = some value ∧
      Annotation.literal? (.withLiteral name value) = some value ∧
      ∀ (options : Options) (c : ClassDescriptor) (base : Option BaseConstructor)
        (fields : List FieldDescriptor) (m : MethodDecl),
        options.prototype c base fields = .ok m → ∀ f ∈ fields, ∃ p ∈ m.params,
          options.NamesProperty (options.naming.propertyOfField f.name) p := by
  refine ⟨Literal.tokenize_quote value, Literal.unquote?_quote value, ?_, ?_⟩
  · exact Annotation.literal?_withLiteral name value
  · intro options c base fields m generated f selected
    exact Options.prototype_namesProperty generated selected

/-- Quotes, a backslash and a line feed are read back, and the parameter for the field `mId` names
the property `id`. -/
theorem awkward_literal_read_back :
    Literal.quote "\"\\é\n\"" = "\"\\\"\\\\é\\n\\\"\"" ∧
      Literal.unquote? "\"\\\"\\\\é\\n\\\"\"" = some "\"\\é\n\"" ∧
      ∃ m, Options.crowdedOptions.prototype Options.crowdedClass none
          [.ofType "mId" (.simple "int")] = .ok m ∧
        ∃ p ∈ m.params, Options.crowdedOptions.NamesProperty "id" p := by
  have written : Literal.quote "\"\\é\n\"" = "\"\\\"\\\\é\\n\\\"\"" := by decide
  obtain ⟨_, back, _, named⟩ := literal_read_back "JsonProperty" "\"\\é\n\""
  rw [written] at back
  have some : (Options.crowdedOptions.prototype Options.crowdedClass none
      [.ofType "mId" (.simple "int")]).toOption.isSome = true := by decide +kernel
  obtain ⟨m, generated⟩ := Option.isSome_iff_exists.mp some
  have generated := eq_ok_of_toOption generated
  refine ⟨written, back, m, generated, ?_⟩
  exact named _ _ _ _ m generated _ List.mem_cons_self

end CreatorSynth
