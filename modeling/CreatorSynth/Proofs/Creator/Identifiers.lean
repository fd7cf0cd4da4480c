import CreatorSynth.Proofs.Creator.ParamNames

/-! Whether the parameters of generated constructors are called by identifiers. The name of a field
is checked, but not what the naming conventions make of it: without its affixes it may begin with a
digit, and that is no identifier unless parameters have a prefix. -/
namespace CreatorSynth
open Text

section Ascii

variable {c : Char}

theorem of_ascii (P : Char → Bool) (all : (List.range 0x80).all (P <| Char.ofNat ·) = true)
    (ascii : c.toNat < 0x80) : P c = true := by
  have here := List.all_eq_true.mp all c.toNat (List.mem_range.mpr ascii)
  rwa [Char.ofNat_toNat] at here

theorem isAscii_of_isDigit (digit : c.isDigit = true) : c.toNat < 0x80 := by
  simp only [Char.isDigit, Bool.and_eq_true, decide_eq_true_eq] at digit
  exact Nat.lt_of_le_of_lt digit.2 (by decide)

theorem isAscii_of_isAlpha (letter : c.isAlpha = true) : c.toNat < 0x80 := by
  change (c.isUpper || c.isLower) = true at letter
  rcases Bool.or_eq_true_iff.mp letter with upper | lower
  · change decide (c.val ≥ 65 ∧ c.val ≤ 90) = true at upper
    exact Nat.lt_of_le_of_lt (of_decide_eq_true upper).2 (by decide)
  · change (decide (c.val ≥ 97) && decide (c.val ≤ 122)) = true at lower
    exact Nat.lt_of_le_of_lt (of_decide_eq_true (Bool.and_eq_true_iff.mp lower).2) (by decide)

theorem isIdentifierPart_ascii (ascii : c.toNat < 0x80) :
    isIdentifierPart c = (isIdentifierStart c || c.isDigit) := by
  simpa using of_ascii (fun c => isIdentifierPart c == (isIdentifierStart c || c.isDigit))
    (by decide +kernel) ascii

theorem isIdentifierStart_ascii (part : isIdentifierPart c = true) (ascii : c.toNat < 0x80) :
    isIdentifierStart c = !c.isDigit := by
  have apart := of_ascii (fun c => !isIdentifierPart c || (isIdentifierStart c == !c.isDigit))
    (by decide +kernel) ascii
  simpa [part] using apart

theorem isIdentifierPart_toUpper (part : isIdentifierPart c = true) (ascii : c.toNat < 0x80) :
    isIdentifierPart c.toUpper = true ∧ c.toUpper.toNat < 0x80 := by
  have kept := of_ascii (fun c => !isIdentifierPart c ||
    (isIdentifierPart c.toUpper && decide (c.toUpper.toNat < 0x80))) (by decide +kernel) ascii
  simpa [part] using kept

theorem isIdentifierPart_toLower (part : isIdentifierPart c = true) (ascii : c.toNat < 0x80) :
    isIdentifierPart c.toLower = true ∧ c.toLower.toNat < 0x80 := by
  have kept := of_ascii (fun c => !isIdentifierPart c ||
    (isIdentifierPart c.toLower && decide (c.toLower.toNat < 0x80))) (by decide +kernel) ascii
  simpa [part] using kept

end Ascii

section Shape

variable {name : String} {cs : List Char}

theorem hasIdentifierShape_append (some : name ≠ "")
    (parts : ∀ c ∈ cs, isIdentifierPart c = true) :
    hasIdentifierShape (name ++ String.ofList cs) = hasIdentifierShape name := by
  have all : cs.all isIdentifierPart = true := List.all_eq_true.mpr parts
  rw [hasIdentifierShape, hasIdentifierShape, String.toList_append, String.toList_ofList]
  cases front : name.toList with
  | nil => exact absurd (String.toList_eq_nil_iff.mp front) some
  | cons c rest => simp [all]

theorem isIdentifierPart_of_isDigit {c : Char} (digit : c.isDigit = true) :
    isIdentifierPart c = true := by
  rw [isIdentifierPart_ascii (isAscii_of_isDigit digit), digit, Bool.or_true]

theorem hasIdentifierShape_toString (n : Nat) : hasIdentifierShape (toString n) = false := by
  rw [hasIdentifierShape]
  cases digits : (toString n).toList with
  | nil => rfl
  | cons c rest =>
    have digit : c.isDigit = true :=
      isDigit_of_mem_toString (n := n) (digits ▸ List.mem_cons_self)
    simp [isIdentifierStart_ascii (isIdentifierPart_of_isDigit digit) (isAscii_of_isDigit digit),
      digit]

theorem isIdentifier_uniquify (candidate : String) (taken : List String) :
    isIdentifier (uniquify candidate taken) = hasIdentifierShape candidate := by
  rw [isIdentifier, isReserved_uniquify, Bool.not_false, Bool.and_true]
  by_cases used : isReserved candidate = true ∨ candidate ∈ taken
  · obtain ⟨k, _, _, numbered, _, _⟩ := uniquify_of_taken used
    rw [numbered]
    by_cases empty : candidate = ""
    · rw [empty, String.empty_append, hasIdentifierShape_toString]
      rfl
    · rw [← String.ofList_toList (s := toString k)]
      exact hasIdentifierShape_append empty fun c member =>
        isIdentifierPart_of_isDigit (isDigit_of_mem_toString member)
  · obtain ⟨unreserved, free⟩ := not_or.mp used
    rw [uniquify_of_free (eq_false_of_ne_true unreserved) free]

end Shape

/-- What is left of a name in ASCII: not empty, and no character but those of identifiers. -/
structure AsciiPart (name : String) : Prop where
  some : name ≠ ""
  parts : ∀ c ∈ name.toList, isIdentifierPart c = true
  ascii : ∀ c ∈ name.toList, c.toNat < 0x80

namespace AsciiPart

variable {name : String}

theorem of_isIdentifier (valid : isIdentifier name = true)
    (ascii : ∀ c ∈ name.toList, c.toNat < 0x80) : AsciiPart name := by
  have shape := (Bool.and_eq_true_iff.mp valid).1
  rw [hasIdentifierShape] at shape
  cases chars : name.toList with
  | nil =>
    rw [chars] at shape
    cases shape
  | cons c cs =>
    rw [chars] at shape ascii
    obtain ⟨start, others⟩ := Bool.and_eq_true_iff.mp shape
    refine ⟨fun empty => ?_, ?_, by rwa [chars]⟩
    · rw [empty] at chars
      cases chars
    · rw [chars, List.forall_mem_cons, isIdentifierPart_ascii (ascii c List.mem_cons_self), start]
      exact ⟨rfl, List.all_eq_true.mp others⟩

theorem ofList {c : Char} {cs : List Char} (whole : AsciiPart name)
    (inside : ∀ d ∈ c :: cs, d ∈ name.toList) : AsciiPart (String.ofList (c :: cs)) where
  some := by simp
  parts := by
    rw [String.toList_ofList]
    exact fun d member => whole.parts d (inside d member)
  ascii := by
    rw [String.toList_ofList]
    exact fun d member => whole.ascii d (inside d member)

theorem strip {drop? : List Char → List Char → Option (List Char)} {affix left : String}
    (whole : AsciiPart name)
    (drops : ∀ rest, drop? affix.toList name.toList = Option.some rest → ∀ c ∈ rest, c ∈ name.toList)
    (stripped : NamingConventions.strip? drop? affix name = Option.some left) : AsciiPart left := by
  unfold NamingConventions.strip? at stripped
  split at stripped
  · cases stripped
  · split at stripped
    · rename_i dropped
      cases stripped
      exact whole.ofList (drops _ dropped)
    · cases stripped

theorem stripStart {affix left : String} (whole : AsciiPart name)
    (stripped : NamingConventions.strip? dropStart? affix name = Option.some left) :
    AsciiPart left := by
  refine whole.strip (fun rest dropped c member => ?_) stripped
  rw [dropStart?_eq_some_iff.mp dropped]
  exact List.mem_append_right _ member

theorem stripEnd {affix left : String} (whole : AsciiPart name)
    (stripped : NamingConventions.strip? dropEnd? affix name = Option.some left) :
    AsciiPart left := by
  refine whole.strip (fun rest dropped c member => ?_) stripped
  obtain ⟨behind, cut, rfl⟩ := Option.map_eq_some_iff.mp dropped
  rw [← List.mem_reverse, dropStart?_eq_some_iff.mp cut]
  exact List.mem_append_right _ (List.mem_reverse.mp member)

theorem replaceFirst {c d : Char} {cs : List Char} (whole : AsciiPart (String.ofList (c :: cs)))
    (part : isIdentifierPart d = true) (ascii : d.toNat < 0x80) :
    AsciiPart (String.ofList (d :: cs)) where
  some := by simp
  parts := by
    have parts := whole.parts
    rw [String.toList_ofList, List.forall_mem_cons] at parts ⊢
    exact ⟨part, parts.2⟩
  ascii := by
    have asciis := whole.ascii
    rw [String.toList_ofList, List.forall_mem_cons] at asciis ⊢
    exact ⟨ascii, asciis.2⟩

theorem exists_ofList (whole : AsciiPart name) : ∃ c cs, name = String.ofList (c :: cs) ∧
    isIdentifierPart c = true ∧ c.toNat < 0x80 := by
  cases chars : name.toList with
  | nil => exact absurd (String.toList_eq_nil_iff.mp chars) whole.some
  | cons c cs =>
    have first : c ∈ name.toList := chars ▸ List.mem_cons_self
    exact ⟨c, cs, by rw [← chars, String.ofList_toList], whole.parts c first, whole.ascii c first⟩

theorem decapitalize (whole : AsciiPart name) : AsciiPart (decapitalize name) := by
  obtain ⟨c, cs, rfl, part, ascii⟩ := whole.exists_ofList
  obtain ⟨part', ascii'⟩ := isIdentifierPart_toLower part ascii
  have lower : lowerOf c = [c.toLower] := if_pos ascii
  unfold CreatorSynth.decapitalize
  rw [String.toList_ofList]
  cases cs with
  | nil =>
    simp only [lower]
    exact whole.replaceFirst part' ascii'
  | cons d cs =>
    simp only [lower]
    split
    · exact whole
    · exact whole.replaceFirst part' ascii'

theorem isDigit_head_decapitalize (whole : AsciiPart name) :
    (CreatorSynth.decapitalize name).toList.head?.any Char.isDigit =
      name.toList.head?.any Char.isDigit := by
  obtain ⟨c, cs, rfl, part, ascii⟩ := whole.exists_ofList
  have digit : c.toLower.isDigit = c.isDigit := by
    simpa using of_ascii (fun c => c.toLower.isDigit == c.isDigit) (by decide +kernel) ascii
  have lower : lowerOf c = [c.toLower] := if_pos ascii
  unfold CreatorSynth.decapitalize
  rw [String.toList_ofList]
  cases cs with
  | nil => simp [lower, digit]
  | cons d cs =>
    simp only [lower]
    split
    · rw [String.toList_ofList]
    · simp [digit]

theorem capitalize (whole : AsciiPart name) : AsciiPart (capitalize name) := by
  obtain ⟨c, cs, rfl, part, ascii⟩ := whole.exists_ofList
  obtain ⟨part', ascii'⟩ := isIdentifierPart_toUpper part ascii
  have upper : upperOf c = [c.toUpper] := if_pos ascii
  unfold CreatorSynth.capitalize
  rw [String.toList_ofList]
  simp only [upper]
  exact whole.replaceFirst part' ascii'

theorem hasIdentifierShape_append (whole : AsciiPart name) (before : String) :
    hasIdentifierShape (before ++ name) =
      if before = "" then !(name.toList.head?.any Char.isDigit) else hasIdentifierShape before := by
  obtain ⟨c, cs, rfl, part, ascii⟩ := whole.exists_ofList
  have parts := whole.parts
  rw [String.toList_ofList] at parts
  split
  · rename_i empty
    have all : cs.all isIdentifierPart = true :=
      List.all_eq_true.mpr (List.forall_mem_cons.mp parts).2
    rw [empty, String.empty_append, hasIdentifierShape, String.toList_ofList]
    simp [isIdentifierStart_ascii part ascii, all]
  · rename_i some
    exact CreatorSynth.hasIdentifierShape_append some parts

end AsciiPart

namespace NamingConventions

variable {naming : NamingConventions} {name field affix : String}

/-- The affixes are written with letters of ASCII and underscores. -/
def Lettered (naming : NamingConventions) : Prop :=
  ∀ affix ∈ [naming.fieldPrefix, naming.fieldSuffix, naming.parameterPrefix, naming.parameterSuffix],
    affix.toList.all (fun c => c.isAlpha || c == '_') = true

instance : Decidable naming.Lettered :=
  inferInstanceAs (Decidable (∀ affix ∈ _, _))

theorem isIdentifierStart_of_lettered {affix : String}
    (lettered : affix.toList.all (fun c => c.isAlpha || c == '_') = true) :
    ∀ c ∈ affix.toList, isIdentifierStart c = true := by
  intro c member
  have either := List.all_eq_true.mp lettered c member
  rw [Bool.or_eq_true, beq_iff_eq] at either
  rcases either with letter | rfl
  · have starts := of_ascii (fun c => !c.isAlpha || isIdentifierStart c) (by decide +kernel)
      (isAscii_of_isAlpha letter)
    simpa [letter] using starts
  · decide

theorem isIdentifierPart_of_isIdentifierStart {c : Char} (starts : isIdentifierStart c = true) :
    isIdentifierPart c = true := by
  simp only [isIdentifierStart, isIdentifierPart, isAlphanumeric, Bool.or_eq_true] at starts ⊢
  tauto

theorem hasIdentifierShape_of_lettered (some : affix ≠ "")
    (lettered : affix.toList.all (fun c => c.isAlpha || c == '_') = true) :
    hasIdentifierShape affix = true := by
  have starts := isIdentifierStart_of_lettered lettered
  rw [hasIdentifierShape]
  cases chars : affix.toList with
  | nil => exact absurd (String.toList_eq_nil_iff.mp chars) some
  | cons c cs =>
    rw [chars, List.forall_mem_cons] at starts
    simp only [starts.1, Bool.true_and, List.all_eq_true]
    exact fun d member => isIdentifierPart_of_isIdentifierStart (starts.2 d member)

theorem asciiPart_unsuffixed (affix : String) (whole : AsciiPart name) :
    AsciiPart ((strip? dropEnd? affix name).getD name) := by
  cases stripped : strip? dropEnd? affix name with
  | none => exact whole
  | some left => exact whole.stripEnd stripped

theorem asciiPart_propertyOfField (naming : NamingConventions) (whole : AsciiPart field) :
    AsciiPart (naming.propertyOfField field) := by
  unfold propertyOfField
  cases stripped : strip? dropStart? naming.fieldPrefix field with
  | none => exact asciiPart_unsuffixed _ whole
  | some left => exact (asciiPart_unsuffixed _ (whole.stripStart stripped)).decapitalize

/-- With a prefix every parameter is called by an identifier, without one just if the property
does not begin with a digit. -/
theorem hasIdentifierShape_parameterOfProperty (lettered : naming.Lettered)
    (whole : AsciiPart name) : hasIdentifierShape (naming.parameterOfProperty name) = true ↔
      (naming.parameterPrefix = "" → name.toList.head?.any Char.isDigit = false) := by
  have suffix : ∀ c ∈ naming.parameterSuffix.toList, isIdentifierPart c = true := fun c member =>
    isIdentifierPart_of_isIdentifierStart
      (isIdentifierStart_of_lettered (lettered _ (by simp)) c member)
  have suffixed : ∀ {middle}, AsciiPart middle → hasIdentifierShape
      (naming.parameterPrefix ++ middle ++ naming.parameterSuffix) =
        hasIdentifierShape (naming.parameterPrefix ++ middle) := by
    intro middle part
    rw [← String.ofList_toList (s := naming.parameterSuffix)]
    exact hasIdentifierShape_append (by simp [part.some]) suffix
  unfold parameterOfProperty
  by_cases bare : naming.parameterPrefix = ""
  · simp only [bare, decide_true, Bool.true_or, if_true, forall_const] at suffixed ⊢
    rw [suffixed whole, whole.hasIdentifierShape_append, if_pos rfl, Bool.not_eq_true']
  · have shape := hasIdentifierShape_of_lettered bare (lettered _ (by simp))
    simp only [bare, false_imp_iff, iff_true]
    split
    · rw [suffixed whole, whole.hasIdentifierShape_append, if_neg bare, shape]
    · rw [suffixed whole.capitalize, whole.capitalize.hasIdentifierShape_append, if_neg bare, shape]

theorem head?_stripEnd (affix name : String) :
    ((strip? dropEnd? affix name).getD name).toList.head? = name.toList.head? := by
  unfold strip?
  split
  · rfl
  · split
    · rename_i c cs dropped
      obtain ⟨behind, cut, reversed⟩ := Option.map_eq_some_iff.mp dropped
      have whole : name.toList = behind.reverse ++ affix.toList := by
        rw [← List.reverse_reverse name.toList, dropStart?_eq_some_iff.mp cut]
        simp
      rw [Option.getD_some, String.toList_ofList, whole, reversed]
      rfl
    · rfl

theorem strip?_dropStart?_eq_some_iff {left : String} :
    strip? dropStart? affix name = some left ↔ affix ≠ "" ∧ left ≠ "" ∧ name = affix ++ left := by
  unfold strip?
  by_cases empty : affix = ""
  · simp [empty]
  · rw [if_neg empty]
    refine ⟨fun stripped => ?_, fun ⟨_, there, whole⟩ => ?_⟩
    · split at stripped
      · rename_i dropped
        cases stripped
        refine ⟨empty, by simp, String.toList_injective ?_⟩
        rw [dropStart?_eq_some_iff.mp dropped, String.toList_append, String.toList_ofList]
      · cases stripped
    · have dropped : dropStart? affix.toList name.toList = Option.some left.toList :=
        dropStart?_eq_some_iff.mpr (by rw [whole, String.toList_append])
      cases chars : left.toList with
      | nil => exact absurd (String.toList_eq_nil_iff.mp chars) there
      | cons c cs =>
        rw [dropped, chars, ← String.ofList_toList (s := left), chars]

/-- What is left of a field begins with a digit just if one stands behind the prefix. -/
theorem isDigit_head_propertyOfField (valid : isIdentifier field = true)
    (whole : AsciiPart field) :
    (naming.propertyOfField field).toList.head?.any Char.isDigit = true ↔
      ∃ left, field = naming.fieldPrefix ++ left ∧ left.toList.head?.any Char.isDigit = true := by
  have begins : field.toList.head?.any Char.isDigit = false := by
    have shape := (Bool.and_eq_true_iff.mp valid).1
    rw [← String.empty_append (s := field), whole.hasIdentifierShape_append] at shape
    simpa using shape
  unfold propertyOfField
  cases stripped : strip? dropStart? naming.fieldPrefix field with
  | none =>
    simp only [Option.getD_none, Option.isSome_none, Bool.false_eq_true, if_false,
      head?_stripEnd, begins, false_iff]
    rintro ⟨left, parts, digit⟩
    have bare : naming.fieldPrefix = "" := by
      by_contra some
      have there : left ≠ "" := by
        rintro rfl
        cases digit
      rw [strip?_dropStart?_eq_some_iff.mpr ⟨some, there, parts⟩] at stripped
      cases stripped
    rw [bare, String.empty_append] at parts
    rw [parts, digit] at begins
    cases begins
  | some left =>
    obtain ⟨_, _, parts⟩ := strip?_dropStart?_eq_some_iff.mp stripped
    have part := asciiPart_unsuffixed naming.fieldSuffix (whole.stripStart stripped)
    simp only [Option.getD_some, Option.isSome_some, if_true, part.isDigit_head_decapitalize,
      head?_stripEnd]
    refine ⟨fun digit => ⟨left, parts, digit⟩, fun ⟨other, same, digit⟩ => ?_⟩
    rwa [(String.append_right_inj _).mp (parts.symm.trans same)]

end NamingConventions

namespace Options

variable {options : Options} {c : ClassDescriptor} {base : Option BaseConstructor}
  {fields : List FieldDescriptor} {inherited own : List Param} {m : MethodDecl}
  {selection : List Candidate} {found : List MethodDecl}

theorem OwnParams.forall₂ (each : options.OwnParams inherited fields own) :
    List.Forall₂ (fun f p => ∃ taken, options.fieldParam taken f = .ok p) fields own := by
  refine List.forall₂_iff_get.mpr ⟨each.1.symm, fun i inside inside' => ?_⟩
  exact ⟨_, each.2 i _ _ (List.getElem?_eq_getElem inside) (List.getElem?_eq_getElem inside')⟩

theorem isIdentifier_own_iff
    (each : List.Forall₂ (fun f p => ∃ taken, options.fieldParam taken f = .ok p) fields own) :
    (∀ p ∈ own, isIdentifier p.name = true) ↔ ∀ f ∈ fields, hasIdentifierShape
      (options.naming.parameterOfProperty (options.naming.propertyOfField f.name)) = true := by
  induction each with
  | nil => simp
  | @cons f p fields own first _ ih =>
    obtain ⟨taken, made⟩ := first
    rw [List.forall_mem_cons, List.forall_mem_cons, ih, (fieldParam_name made).2,
      isIdentifier_uniquify]

/-- The inherited parameters are called by identifiers, so it is the fields that decide. -/
theorem prototype_identifiers_iff (generated : options.prototype c base fields = .ok m) :
    (∀ f ∈ fields, isIdentifier f.name = true) ∧
    ((∀ p ∈ m.params, isIdentifier p.name = true) ↔ ∀ f ∈ fields, hasIdentifierShape
      (options.naming.parameterOfProperty (options.naming.propertyOfField f.name)) = true) := by
  obtain ⟨own, _, drawn, params, _⟩ := prototype_ok generated
  have each := drawn.forall₂
  refine ⟨fun f member => ?_, ?_⟩
  · obtain ⟨_, _, _, made⟩ := exists_of_forall₂ each.flip member
    exact (fieldParam_name made).1
  · rw [← isIdentifier_own_iff each, params, List.forall_mem_map]
    simp only [(withOwn_perm _ own).mem_iff, List.mem_append, or_imp, forall_and]
    exact and_iff_right (isIdentifier_of_inherited generated)

theorem exists_prototype (generated : options.generate c selection = .ok found)
    (member : m ∈ found) :
    ∃ base, options.prototype c base (selection.filterMap Candidate.field?) = .ok m := by
  obtain ⟨ms, yields, kept⟩ := generate_yields generated
  have among : m ∈ ms := by
    rcases withoutExisting_cases c ms with none | all
    · rw [kept, none] at member
      cases member
    · rwa [kept, all] at member
  cases yields with
  | single _ single =>
    rw [List.mem_singleton.mp among]
    exact ⟨none, single⟩
  | each _ each =>
    obtain ⟨b, _, drawn⟩ := exists_of_forall₂ each among
    exact ⟨_, drawn⟩

/-- Where fields are named in ASCII and the affixes are letters and underscores, the parameters of
a generated constructor are called by identifiers unless one stands for a field with a digit behind
its prefix and has no prefix of its own. -/
theorem generate_identifiers_iff (generated : options.generate c selection = .ok found)
    (member : m ∈ found) (lettered : options.naming.Lettered)
    (ascii : ∀ f ∈ selection.filterMap Candidate.field?, ∀ c ∈ f.name.toList, c.toNat < 0x80) :
    (∀ p ∈ m.params, isIdentifier p.name = true) ↔
      (options.naming.parameterPrefix = "" → ∀ f ∈ selection.filterMap Candidate.field?,
        ¬∃ left, f.name = options.naming.fieldPrefix ++ left ∧
          left.toList.head?.any Char.isDigit = true) := by
  obtain ⟨base, drawn⟩ := exists_prototype generated member
  obtain ⟨valid, decided⟩ := prototype_identifiers_iff drawn
  have each : ∀ f ∈ selection.filterMap Candidate.field?, hasIdentifierShape
      (options.naming.parameterOfProperty (options.naming.propertyOfField f.name)) = true ↔
        (options.naming.parameterPrefix = "" → ¬∃ left, f.name = options.naming.fieldPrefix ++ left ∧
          left.toList.head?.any Char.isDigit = true) := by
    intro f among
    have whole := AsciiPart.of_isIdentifier (valid f among) (ascii f among)
    rw [NamingConventions.hasIdentifierShape_parameterOfProperty lettered
      (NamingConventions.asciiPart_propertyOfField _ whole),
      ← NamingConventions.isDigit_head_propertyOfField (valid f among) whole, Bool.not_eq_true]
  rw [decided]
  refine ⟨fun all bare f among => (each f among).mp (all f among) bare, fun all f among => ?_⟩
  exact (each f among).mpr fun bare => all bare f among

def numberedClass : ClassDescriptor where
  name := "Point"
  qualifiedName := "Point"
  kind := .ordinary
  visibility := .pub
  typeParams := []
  superclass := none
  existingConstructors := []
  members := [.field (.ofType "m1" (.simple "int"))]

def numberedOptions : Options :=
  { standard with naming := .mPrefixed }

/-- The field `m1` is an identifier, what its parameter is called is not, and the constructor does
not read back. -/
theorem numbered_generate_not_identifier :
    numberedOptions.naming.Lettered ∧ isIdentifier "m1" = true ∧ isIdentifier "1" = false ∧
    ((numberedOptions.generate numberedClass numberedClass.members).toOption.map fun found =>
      found.map fun m => m.params.map (·.name)) = some [["1"]] ∧
    ((numberedOptions.generate numberedClass numberedClass.members).toOption.map fun found =>
      found.map fun m => (parseMember (m.text .java) "Point" .java).toOption.isSome) =
        some [false] := by
  refine ⟨by decide, by decide, by decide, ?_, ?_⟩
  · decide +kernel
  · decide +kernel

end Options

end CreatorSynth
