import CreatorSynth.Creator.Prototype
import CreatorSynth.Proofs.Token.Raw
import Mathlib.Data.List.Destutter
import Mathlib.Data.List.Sort

/-! The normal form of a declaration: modifier words in their order, each once, and raw texts
without white space at their ends. Only equal neighbours are merged; this leaves each modifier word
once because sorting puts equal words next to each other. -/
namespace CreatorSynth
open Text

section Trimming

/-- What is left of a text without the white space at its ends. -/
structure IsTrim (s t : String) : Prop where
  around : ∃ front back, s.toList = front ++ t.toList ++ back ∧
    (∀ c ∈ front, isBlank c = true) ∧ ∀ c ∈ back, isBlank c = true
  tipped : Tipped t.toList

theorem exists_trim (cs : List Char) : ∃ front back, cs = front ++ trim cs ++ back ∧
    (∀ c ∈ front, isBlank c = true) ∧ ∀ c ∈ back, isBlank c = true := by
  have blank (ds : List Char) : ∀ c ∈ ds.takeWhile isBlank, isBlank c = true := fun _ member =>
    List.all_eq_true.mp List.all_takeWhile _ member
  refine ⟨cs.takeWhile isBlank, ((trimStart cs).reverse.takeWhile isBlank).reverse, ?_, blank cs,
    fun c member => blank _ c (List.mem_reverse.mp member)⟩
  rw [trim, trimEnd, List.append_assoc, ← List.reverse_append, List.takeWhile_append_dropWhile,
    List.reverse_reverse, trimStart, List.takeWhile_append_dropWhile]

theorem isTrim_iff {s t : String} : IsTrim s t ↔ t = trimmed s := by
  constructor
  · rintro ⟨⟨front, back, whole, before, behind⟩, tipped⟩
    rw [trimmed, whole, trim_of_tipped tipped before behind, String.ofList_toList]
  · rintro rfl
    rw [trimmed]
    exact ⟨by rw [String.toList_ofList]; exact exists_trim _,
      by rw [String.toList_ofList]; exact tipped_trim _⟩

theorem trimmed_trimmed (s : String) : trimmed (trimmed s) = trimmed s := by
  rw [trimmed, trimmed, String.toList_ofList, trim_self (tipped_trim _)]

end Trimming

namespace Modifiers

variable {m n : Modifiers} {words : List String} {v w : String}

/-- No word ranks above the one in front of it. -/
def RankLE (v w : String) : Prop :=
  modifierRank v ≤ modifierRank w

instance : DecidableRel RankLE :=
  fun v w => Nat.decLe (modifierRank v) (modifierRank w)

instance : Std.Total RankLE :=
  ⟨fun v w => Nat.le_total (modifierRank v) (modifierRank w)⟩

instance : IsTrans String RankLE :=
  ⟨fun _ _ _ => Nat.le_trans⟩

theorem insertByRank_eq_orderedInsert (word : String) (words : List String) :
    insertByRank word words = words.orderedInsert RankLE word := by
  induction words with
  | nil => rfl
  | cons w ws ih =>
    rw [insertByRank, ih, List.orderedInsert_cons]
    rfl

theorem sortByRank_eq_insertionSort (words : List String) :
    sortByRank words = words.insertionSort RankLE := by
  induction words with
  | nil => rfl
  | cons w ws ih => rw [List.insertionSort_cons, ← ih, ← insertByRank_eq_orderedInsert]; rfl

theorem dropRepeats_cons (w : String) (ws : List String) :
    dropRepeats (w :: ws) = ws.destutter' (· ≠ ·) w := by
  induction ws generalizing w with
  | nil => rfl
  | cons v vs ih =>
    rw [dropRepeats, ih]
    by_cases same : w = v
    · rw [if_pos same, List.destutter'_cons_neg _ (not_not_intro same), same]
    · rw [if_neg same, List.destutter'_cons_pos _ same]

theorem dropRepeats_eq_destutter (words : List String) :
    dropRepeats words = words.destutter (· ≠ ·) := by
  cases words with
  | nil => rfl
  | cons w ws => exact dropRepeats_cons w ws

theorem mem_dropRepeats : w ∈ dropRepeats words ↔ w ∈ words := by
  fun_induction dropRepeats words with
  | case1 => rfl
  | case2 v => rfl
  | case3 v ws ih => rw [ih]; simp
  | case4 v u ws other ih => rw [List.mem_cons, ih, ← List.mem_cons]

theorem mem_normalize : w ∈ m.normalize.keywords ↔ w ∈ m.keywords := by
  rw [normalize, mem_dropRepeats, sortByRank_eq_insertionSort, List.mem_insertionSort]

theorem sorted_normalize (m : Modifiers) : m.normalize.keywords.Pairwise RankLE := by
  rw [normalize, dropRepeats_eq_destutter, sortByRank_eq_insertionSort]
  exact (List.pairwise_insertionSort RankLE m.keywords).sublist (List.destutter_sublist _ _)

theorem normalize_normalize (m : Modifiers) : m.normalize.normalize = m.normalize := by
  have again : dropRepeats (sortByRank m.normalize.keywords) = m.normalize.keywords := by
    rw [sortByRank_eq_insertionSort, (sorted_normalize m).insertionSort_eq, normalize,
      dropRepeats_eq_destutter, dropRepeats_eq_destutter, List.destutter_idem]
  rw [normalize, again]

theorem eq_of_modifierRank_eq (known : isModifierKeyword v = true)
    (same : modifierRank v = modifierRank w) : v = w :=
  (List.idxOf_inj (List.contains_iff_mem.mp known)).mp same

def Known (words : List String) : Prop :=
  ∀ w ∈ words, isModifierKeyword w = true

/-- Words in their order from which equal neighbours are dropped are all different: each differs in
rank from its neighbour, and therefore from all words behind it. -/
theorem increasing_dropRepeats (sorted : words.Pairwise RankLE) (known : Known words) :
    (dropRepeats words).Pairwise (modifierRank · < modifierRank ·) := by
  fun_induction dropRepeats words with
  | case1 => exact .nil
  | case2 v => exact List.pairwise_singleton _ _
  | case3 v ws ih => exact ih sorted.tail (List.forall_mem_cons.mp known).2
  | case4 v u ws other ih =>
    obtain ⟨above, sorted⟩ := List.pairwise_cons.mp sorted
    obtain ⟨first, known⟩ := List.forall_mem_cons.mp known
    refine List.pairwise_cons.mpr ⟨fun w member => ?_, ih sorted known⟩
    -- Only the next word is compared, but all behind it rank no lower than that one.
    have next : modifierRank v < modifierRank u :=
      Nat.lt_of_le_of_ne (above u List.mem_cons_self) fun same =>
        other (eq_of_modifierRank_eq first same)
    rcases List.mem_cons.mp (mem_dropRepeats.mp member) with rfl | behind
    · exact next
    · exact Nat.lt_of_lt_of_le next ((List.pairwise_cons.mp sorted).1 w behind)

theorem increasing_normalize (known : Known m.keywords) :
    m.normalize.keywords.Pairwise (modifierRank · < modifierRank ·) := by
  rw [normalize, sortByRank_eq_insertionSort]
  exact increasing_dropRepeats (List.pairwise_insertionSort RankLE m.keywords)
    fun w member => known w ((List.mem_insertionSort RankLE).mp member)

theorem nodup_of_increasing (increasing : words.Pairwise (modifierRank · < modifierRank ·)) :
    words.Nodup :=
  increasing.imp fun less same => Nat.ne_of_lt less (congrArg modifierRank same)

theorem keywords_normalize (known : Known m.keywords) :
    m.normalize.keywords = modifierOrder.filter m.has := by
  have increasing := increasing_normalize known
  have listed : (modifierOrder.filter m.has).Pairwise (modifierRank · < modifierRank ·) :=
    List.Pairwise.filter _ (by decide)
  refine List.Perm.eq_of_pairwise (fun v w _ _ less more => ?_) increasing listed ?_
  · exact absurd more (Nat.lt_asymm less)
  · refine (List.perm_ext_iff_of_nodup (nodup_of_increasing increasing)
      (nodup_of_increasing listed)).mpr fun w => ?_
    rw [mem_normalize, List.mem_filter, has, List.contains_iff_mem, iff_and_self]
    exact fun member => List.contains_iff_mem.mp (known w member)

example : (normalize ⟨["final", "public", "final"], []⟩).keywords = ["public", "final"] := by
  decide

theorem has_normalize (m : Modifiers) (word : String) : m.normalize.has word = m.has word := by
  rw [has, has, Bool.eq_iff_iff, List.contains_iff_mem, List.contains_iff_mem, mem_normalize]

theorem visibility_congr (same : ∀ word, n.has word = m.has word) :
    n.visibility = m.visibility := by
  simp only [visibility, same]

/-- The same modifiers with their words in order and each once. -/
structure Tidied (m n : Modifiers) : Prop where
  annotations : n.annotations = m.annotations
  has : ∀ word, n.has word = m.has word
  visibility : n.visibility = m.visibility
  increasing : Known m.keywords → n.keywords.Pairwise (modifierRank · < modifierRank ·)
  nodup : Known m.keywords → n.keywords.Nodup
  listed : Known m.keywords → n.keywords = modifierOrder.filter m.has

theorem tidied_normalize (m : Modifiers) : m.Tidied m.normalize where
  annotations := rfl
  has := has_normalize m
  visibility := visibility_congr (has_normalize m)
  increasing := increasing_normalize
  nodup known := nodup_of_increasing (increasing_normalize known)
  listed := keywords_normalize

end Modifiers

structure Param.Tidied (p q : Param) : Prop where
  modifiers : p.modifiers.Tidied q.modifiers
  others : q = { p with modifiers := q.modifiers }

namespace Statement

/-- A statement of the same kind without white space at the ends of its raw texts. -/
inductive Tidied : Statement → Statement → Prop
  | superCall {args args' : List String} {span : Span} (each : List.Forall₂ IsTrim args args') :
      Tidied (superCall args span) (superCall args' span)
  | thisCall {args args' : List String} {span : Span} (each : List.Forall₂ IsTrim args args') :
      Tidied (thisCall args span) (thisCall args' span)
  | assign {qualified : Bool} {field value value' : String} {span : Span}
      (cut : IsTrim value value') :
      Tidied (assign qualified field value span) (assign qualified field value' span)
  | other {text text' : String} {span : Span} (cut : IsTrim text text') :
      Tidied (other text span) (other text' span)

theorem tidied_normalize (s : Statement) : s.Tidied s.normalize := by
  have each (args : List String) : List.Forall₂ IsTrim args (args.map trimmed) :=
    List.forall₂_map_right_iff.mpr (List.forall₂_same.mpr fun _ _ => isTrim_iff.mpr rfl)
  cases s with
  | superCall args span => exact .superCall (each args)
  | thisCall args span => exact .thisCall (each args)
  | assign qualified field value span => exact .assign (isTrim_iff.mpr rfl)
  | other text span => exact .other (isTrim_iff.mpr rfl)

theorem normalize_normalize (s : Statement) : s.normalize.normalize = s.normalize := by
  cases s <;> simp [normalize, trimmed_trimmed]

end Statement

namespace Block

structure Tidied (b c : Block) : Prop where
  statements : List.Forall₂ Statement.Tidied b.statements c.statements
  span : c.span = b.span

theorem tidied_normalize (b : Block) : b.Tidied b.normalize where
  statements := List.forall₂_map_right_iff.mpr
    (List.forall₂_same.mpr fun s _ => s.tidied_normalize)
  span := rfl

theorem normalize_normalize (b : Block) : b.normalize.normalize = b.normalize := by
  simp [normalize, Statement.normalize_normalize]

end Block

namespace MethodDecl

/-- The same declaration with the modifiers of itself and of its parameters in order, and without
white space at the ends of the raw texts in its body. -/
structure Tidied (m n : MethodDecl) : Prop where
  modifiers : m.modifiers.Tidied n.modifiers
  params : List.Forall₂ Param.Tidied m.params n.params
  body : Option.Rel Block.Tidied m.body n.body
  others : n = { m with modifiers := n.modifiers, params := n.params, body := n.body }

theorem tidied_normalize (m : MethodDecl) : m.Tidied m.normalize where
  modifiers := m.modifiers.tidied_normalize
  params := List.forall₂_map_right_iff.mpr
    (List.forall₂_same.mpr fun p _ => ⟨p.modifiers.tidied_normalize, rfl⟩)
  body := by
    rw [normalize]
    cases m.body with
    | none => exact .none
    | some b => exact .some b.tidied_normalize
  others := rfl

/-- Normalizing puts a declaration into its normal form, and changes nothing the second time. -/
theorem normal_form (m : MethodDecl) :
    m.normalize.normalize = m.normalize ∧ m.Tidied m.normalize := by
  refine ⟨?_, m.tidied_normalize⟩
  simp [normalize, Modifiers.normalize_normalize, Block.normalize_normalize, Function.comp_def]

end MethodDecl

end CreatorSynth
