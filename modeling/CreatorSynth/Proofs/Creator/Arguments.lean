import CreatorSynth.Proofs.Creator.Literals

/-! Annotation arguments that are read as a string. The reader looks at the first character and at
the last, and resolves the escapes in between. So it answers for a string literal, but also for a
text that only begins and ends with one: it is one literal that was read just if no line ends in
between and no quote stands there by itself. -/
namespace CreatorSynth
open Text

namespace Literal

variable {args text other value : String} {inner cs : List Char}

/-- The argument in a text: all of the text, or what stands behind `value =`, without the white
space around it. -/
inductive Gives (args : String) : String → Prop
  | alone (unnamed : ¬ "value".toList <+: trim args.toList) : Gives args (trimmed args)
  | named {between behind : List Char} (blank : ∀ c ∈ between, isBlank c = true)
      (shape : trim args.toList = "value".toList ++ (between ++ '=' :: behind)) :
      Gives args (String.ofList (trimStart behind))

theorem trimStart_equals {between : List Char} (blank : ∀ c ∈ between, isBlank c = true)
    (behind : List Char) : trimStart (between ++ '=' :: behind) = '=' :: behind :=
  trimStart_append blank fun _ head => by cases head; decide

theorem Gives.unique (first : Gives args text) (second : Gives args other) : text = other := by
  cases first with
  | alone unnamed =>
    cases second with
    | alone => rfl
    | named blank shape => exact absurd ⟨_, shape.symm⟩ unnamed
  | named blank shape =>
    cases second with
    | alone unnamed => exact absurd ⟨_, shape.symm⟩ unnamed
    | named blank' shape' =>
      have same := congrArg trimStart (List.append_cancel_left (shape.symm.trans shape'))
      rw [trimStart_equals blank, trimStart_equals blank'] at same
      rw [(List.cons.inj same).2]

theorem ofArguments?_eq_some_iff :
    ofArguments? args = some value ↔ ∃ text, Gives args text ∧ unquote? text = some value := by
  unfold ofArguments?
  simp only
  cases named : dropStart? "value".toList (trim args.toList) with
  | none =>
    have unnamed : ¬ "value".toList <+: trim args.toList := by
      rintro ⟨rest, shape⟩
      rw [dropStart?_eq_some_iff.mpr shape.symm] at named
      cases named
    simp only [Option.bind_some]
    constructor
    · intro read
      exact ⟨_, .alone unnamed, read⟩
    · rintro ⟨text, given, read⟩
      rw [given.unique (.alone unnamed)] at read
      exact read
  | some rest =>
    have shape := dropStart?_eq_some_iff.mp named
    simp only [Option.bind_eq_some_iff, Option.map_eq_some_iff]
    constructor
    · rintro ⟨_, ⟨behind, equals, rfl⟩, read⟩
      have equals := dropStart?_eq_some_iff.mp equals
      refine ⟨_, @Gives.named _ (rest.takeWhile isBlank) behind ?_ ?_, read⟩
      · exact fun _ member => List.all_eq_true.mp List.all_takeWhile _ member
      · have split : rest = rest.takeWhile isBlank ++ trimStart rest :=
          List.takeWhile_append_dropWhile.symm
        rw [equals] at split
        rw [shape]
        exact congrArg ("value".toList ++ ·) split
    · rintro ⟨text, given, read⟩
      cases given with
      | alone unnamed => exact absurd ⟨rest, shape.symm⟩ unnamed
      | @named between behind blank shape' =>
        obtain rfl : rest = between ++ '=' :: behind :=
          List.append_cancel_left (shape.symm.trans shape')
        refine ⟨_, ⟨behind, ?_, rfl⟩, read⟩
        rw [trimStart_equals blank]
        rfl

theorem unquote?_eq_some_iff : unquote? text = some value ↔
    ∃ inner, text.toList = '"' :: (inner ++ ['"']) ∧ unescape inner = some value.toList := by
  constructor
  · intro read
    unfold unquote? at read
    split at read
    · rename_i rest shape
      split at read
      · rename_i last
        obtain ⟨cs, meant, rfl⟩ := Option.map_eq_some_iff.mp read
        refine ⟨rest.dropLast, ?_, by rw [meant, String.toList_ofList]⟩
        rw [shape, List.dropLast_append_getLast? _ last]
      · cases read
    · cases read
  · rintro ⟨inner, shape, meant⟩
    rw [unquote?, shape]
    simp [meant]

/-- A quote stands there by itself: the escapes in front of it are complete. -/
def HasBareQuote (cs : List Char) : Prop :=
  ∃ front back, cs = front ++ '"' :: back ∧ (unescape front).isSome = true

namespace HasBareQuote

theorem plain {c : Char} (other : c ≠ '\\') (bare : HasBareQuote cs) : HasBareQuote (c :: cs) := by
  obtain ⟨front, back, split, complete⟩ := bare
  refine ⟨c :: front, back, congrArg (c :: ·) split, ?_⟩
  rwa [unescape_cons_of_ne other, Option.isSome_map]

theorem escaped (c : Char) (bare : HasBareQuote cs) : HasBareQuote ('\\' :: c :: cs) := by
  obtain ⟨front, back, split, complete⟩ := bare
  refine ⟨'\\' :: c :: front, back, congrArg ('\\' :: c :: ·) split, ?_⟩
  rwa [unescape, Option.isSome_map]

end HasBareQuote

theorem not_hasBareQuote_of_enclosed (enclosed : Enclosed inner) : ¬ HasBareQuote inner := by
  rintro ⟨front, back, split, complete⟩
  induction enclosed generalizing front with
  | nil => cases front <;> cases split
  | plain quote slash _ _ ih =>
    cases front with
    | nil => exact quote (List.cons.inj split).1
    | cons c front =>
      obtain ⟨rfl, behind⟩ := List.cons.inj split
      rw [unescape_cons_of_ne slash, Option.isSome_map] at complete
      exact ih front behind complete
  | escaped _ _ ih =>
    rcases front with _ | ⟨c, _ | ⟨d, front⟩⟩
    · cases split
    · cases split
      cases complete
    · obtain ⟨slash, split⟩ := List.cons.inj split
      obtain ⟨_, behind⟩ := List.cons.inj split
      rw [← slash, unescape, Option.isSome_map] at complete
      exact ih front behind complete

theorem no_feed_of_enclosed (enclosed : Enclosed inner) : '\n' ∉ inner := by
  induction enclosed with
  | nil => exact List.not_mem_nil
  | plain _ _ feed _ ih => exact List.not_mem_cons_of_ne_of_not_mem feed.symm ih
  | escaped feed _ ih =>
    refine List.not_mem_cons_of_ne_of_not_mem (by decide) ?_
    exact List.not_mem_cons_of_ne_of_not_mem feed.symm ih

/-- Where the escapes are complete, nothing but a quote by itself or a line feed keeps a text from
standing inside a string. -/
theorem enclosed_iff (complete : (unescape inner).isSome = true) :
    Enclosed inner ↔ '\n' ∉ inner ∧ ¬ HasBareQuote inner := by
  refine ⟨fun enclosed => ⟨no_feed_of_enclosed enclosed, not_hasBareQuote_of_enclosed enclosed⟩, ?_⟩
  rintro ⟨feed, bare⟩
  fun_induction unescape inner with
  | case1 => exact .nil
  | case2 => cases complete
  | case3 c rest ih =>
    rw [Option.isSome_map] at complete
    obtain ⟨_, feed⟩ := List.ne_and_not_mem_of_not_mem_cons feed
    obtain ⟨other, feed⟩ := List.ne_and_not_mem_of_not_mem_cons feed
    exact .escaped other.symm (ih complete feed fun more => bare (more.escaped c))
  | case4 c rest last next ih =>
    rw [Option.isSome_map] at complete
    obtain ⟨other, feed⟩ := List.ne_and_not_mem_of_not_mem_cons feed
    have slash := ne_backslash last next
    have quote : c ≠ '"' := by
      rintro rfl
      exact bare ⟨[], rest, rfl, rfl⟩
    exact .plain quote slash other.symm (ih complete feed fun more => bare (more.plain slash))

theorem isString_iff (shape : text.toList = '"' :: (inner ++ ['"'])) :
    IsString text ↔ Enclosed inner := by
  refine ⟨fun string => ?_, fun enclosed => ⟨inner, enclosed, shape⟩⟩
  obtain ⟨_, enclosed, shape'⟩ := string
  have same := (List.cons.inj (shape.symm.trans shape')).2
  rwa [List.append_cancel_right same]

end Literal

open Literal

/-- An annotation is read as a string just if its argument begins and ends with a quote and the
escapes in between are complete. The string is what they stand for. -/
theorem Annotation.literal?_eq_some_iff {a : Annotation} {value : String} :
    a.literal? = some value ↔ ∃ args text inner, a.args = some args ∧ Gives args text ∧
      text.toList = '"' :: (inner ++ ['"']) ∧ unescape inner = some value.toList := by
  rw [literal?, Option.bind_eq_some_iff]
  simp only [ofArguments?_eq_some_iff, unquote?_eq_some_iff]
  constructor
  · rintro ⟨args, given, text, gives, inner, shape, meant⟩
    exact ⟨args, text, inner, given, gives, shape, meant⟩
  · rintro ⟨args, text, inner, given, gives, shape, meant⟩
    exact ⟨args, given, text, gives, inner, shape, meant⟩

/-- What was read as a string is one string literal of one line, and nothing else, just if between
the first quote and the last no line ends and no quote stands by itself. -/
theorem Annotation.literal?_isString_iff {a : Annotation} {value : String}
    (read : a.literal? = some value) : ∃ args text inner, a.args = some args ∧ Gives args text ∧
      text.toList = '"' :: (inner ++ ['"']) ∧ unescape inner = some value.toList ∧
      (IsString text ↔ '\n' ∉ inner ∧ ¬ HasBareQuote inner) := by
  obtain ⟨args, text, inner, given, gives, shape, meant⟩ := literal?_eq_some_iff.mp read
  have complete : (unescape inner).isSome = true := by rw [meant]; rfl
  exact ⟨args, text, inner, given, gives, shape, meant,
    (isString_iff shape).trans (enclosed_iff complete)⟩

def listedArguments : String :=
  "value = \"id\", defaultValue = \"0\""

/-- A string and a second argument behind it are read as one string. -/
theorem Annotation.second_argument_read_as_string :
    ∃ a : Annotation, a.args = some listedArguments ∧
      a.literal? = some "id\", defaultValue = \"0" ∧
      ∀ text, Gives listedArguments text → ¬ IsString text := by
  refine ⟨⟨"JsonProperty", some listedArguments, Span.none⟩, rfl, by decide +kernel, ?_⟩
  intro text gives string
  have given : Gives listedArguments "\"id\", defaultValue = \"0\"" :=
    @Gives.named _ [' '] " \"id\", defaultValue = \"0\"".toList
      (List.forall_mem_singleton.mpr (by decide)) (by decide)
  rw [gives.unique given] at string
  have shape : "\"id\", defaultValue = \"0\"".toList =
      '"' :: ("id\", defaultValue = \"0".toList ++ ['"']) := by decide
  have bare : HasBareQuote "id\", defaultValue = \"0".toList :=
    ⟨"id".toList, ", defaultValue = \"0".toList, by decide, by decide⟩
  exact not_hasBareQuote_of_enclosed ((isString_iff shape).mp string) bare

end CreatorSynth
