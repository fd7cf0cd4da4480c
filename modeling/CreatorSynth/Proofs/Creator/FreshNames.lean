import CreatorSynth.Naming
import Mathlib.Data.List.Nodup
import Mathlib.Order.Bounds.Defs

/-! Names that are not taken. No two numbered forms of a name are the same, and none of them is
reserved, so among one form more than there are names taken one is free. -/
namespace CreatorSynth
open Text

variable {candidate : String} {taken : List String}

theorem numbered_inj {m n : Nat} :
    candidate ++ toString m = candidate ++ toString n ↔ m = n := by
  refine ⟨fun same => ?_, fun same => same ▸ rfl⟩
  have digits := congrArg String.toList ((String.append_right_inj candidate).mp same)
  rw [Nat.toString_eq_repr, Nat.toString_eq_repr, Nat.toList_repr, Nat.toList_repr] at digits
  rw [← Nat.ofDigitChars_ten_toDigits (n := m), digits, Nat.ofDigitChars_ten_toDigits]

theorem isDigit_of_mem_toString {n : Nat} {c : Char} (member : c ∈ (toString n).toList) :
    c.isDigit = true := by
  rw [Nat.toString_eq_repr, Nat.toList_repr] at member
  exact Nat.isDigit_of_mem_toDigits (by decide) (by decide) member

theorem toList_toString_ne_nil (n : Nat) : (toString n).toList ≠ [] := by
  rw [Nat.toString_eq_repr, Nat.toList_repr]
  exact Nat.toDigits_ne_nil

theorem ne_numbered {name : String} (ends : name.toList.getLast?.any Char.isDigit = false)
    (candidate : String) (n : Nat) : name ≠ candidate ++ toString n := by
  rintro rfl
  have last := List.getLast?_eq_some_getLast (toList_toString_ne_nil n)
  rw [String.toList_append, List.getLast?_append, last, Option.some_or, Option.any_some,
    isDigit_of_mem_toString (List.getLast_mem _)] at ends
  cases ends

theorem isReserved_numbered (candidate : String) (n : Nat) :
    isReserved (candidate ++ toString n) = false := by
  have words : ∀ word ∈ reservedWords, word.toList.getLast?.any Char.isDigit = false := by
    decide
  refine eq_false_of_ne_true fun reserved => ?_
  have listed : candidate ++ toString n ∈ reservedWords := by simpa [isReserved] using reserved
  exact ne_numbered (words _ listed) candidate n rfl

theorem numbered_search (isTaken : String → Bool) (candidate : String) (bound n : Nat) :
    ∃ k, n ≤ k ∧ k ≤ n + bound ∧ numbered isTaken candidate bound n = candidate ++ toString k ∧
      (∀ i, n ≤ i → i < k → isTaken (candidate ++ toString i) = true) ∧
      (k < n + bound → isTaken (candidate ++ toString k) = false) := by
  induction bound generalizing n with
  | zero => exact ⟨n, Nat.le_refl n, Nat.le_refl n, rfl, by omega, by omega⟩
  | succ bound ih =>
    cases first : isTaken (candidate ++ toString n) with
    | false =>
      refine ⟨n, Nat.le_refl n, by omega, ?_, by omega, fun _ => first⟩
      simp only [numbered, first, Bool.false_eq_true, if_false]
    | true =>
      obtain ⟨k, above, below, found, passed, free⟩ := ih (n + 1)
      refine ⟨k, by omega, by omega, ?_, fun i low high => ?_, fun early => free (by omega)⟩
      · simp only [numbered, first, if_true]
        exact found
      · rcases Nat.eq_or_lt_of_le low with rfl | later
        · exact first
        · exact passed i later high

/-- One form more than there are names taken cannot all be taken. -/
theorem exists_numbered_not_mem (candidate : String) (taken : List String) :
    ∃ i, 1 ≤ i ∧ i ≤ taken.length + 1 ∧ candidate ++ toString i ∉ taken := by
  by_contra all
  have inside : (List.range' 1 (taken.length + 1)).map (candidate ++ toString ·) ⊆ taken := by
    intro name member
    obtain ⟨i, among, rfl⟩ := List.mem_map.mp member
    rw [List.mem_range'_1] at among
    by_contra free
    exact all ⟨i, among.1, by omega, free⟩
  have different : ((List.range' 1 (taken.length + 1)).map (candidate ++ toString ·)).Nodup :=
    (List.nodup_range').map fun _ _ same => numbered_inj.mp same
  have short := different.length_le_of_subset inside
  rw [List.length_map, List.length_range'] at short
  omega

/-- The name is reserved or taken. -/
def unusable (taken : List String) (name : String) : Bool :=
  isReserved name || taken.contains name

theorem unusable_iff {name : String} :
    unusable taken name = true ↔ isReserved name = true ∨ name ∈ taken := by
  rw [unusable, Bool.or_eq_true, List.contains_iff_mem]

theorem unusable_numbered (taken : List String) (candidate : String) (n : Nat) :
    unusable taken (candidate ++ toString n) = decide (candidate ++ toString n ∈ taken) := by
  rw [unusable, isReserved_numbered, Bool.false_or, List.contains_eq_mem]

theorem uniquify_of_free (unreserved : isReserved candidate = false) (free : candidate ∉ taken) :
    uniquify candidate taken = candidate := by
  simp [uniquify, unreserved, free]

theorem uniquify_of_taken (used : isReserved candidate = true ∨ candidate ∈ taken) :
    ∃ k, 1 ≤ k ∧ k ≤ taken.length + 1 ∧ uniquify candidate taken = candidate ++ toString k ∧
      candidate ++ toString k ∉ taken ∧ ∀ i, 1 ≤ i → i < k → candidate ++ toString i ∈ taken := by
  have goes : uniquify candidate taken =
      numbered (unusable taken) candidate taken.length 1 :=
    if_pos (unusable_iff.mpr used)
  obtain ⟨k, above, below, found, passed, free⟩ :=
    numbered_search (unusable taken) candidate taken.length 1
  have earlier : ∀ i, 1 ≤ i → i < k → candidate ++ toString i ∈ taken := fun i low high =>
    of_decide_eq_true (unusable_numbered taken candidate i ▸ passed i low high)
  refine ⟨k, above, by omega, goes.trans found, fun member => ?_, earlier⟩
  -- The search has not ended before its bound, so a free number would have to be beyond it.
  obtain ⟨i, low, high, unused⟩ := exists_numbered_not_mem candidate taken
  rcases Nat.lt_or_ge k (1 + taken.length) with early | late
  · have unused := unusable_numbered taken candidate k ▸ free early
    exact of_decide_eq_false unused member
  · rcases Nat.lt_or_ge i k with before | behind
    · exact unused (earlier i low before)
    · have same : i = k := by omega
      exact unused (same ▸ member)

theorem uniquify_not_mem (candidate : String) (taken : List String) :
    uniquify candidate taken ∉ taken := by
  by_cases used : isReserved candidate = true ∨ candidate ∈ taken
  · obtain ⟨k, _, _, found, free, _⟩ := uniquify_of_taken used
    rw [found]
    exact free
  · obtain ⟨unreserved, free⟩ := not_or.mp used
    rw [uniquify_of_free (eq_false_of_ne_true unreserved) free]
    exact free

theorem isReserved_uniquify (candidate : String) (taken : List String) :
    isReserved (uniquify candidate taken) = false := by
  by_cases used : isReserved candidate = true ∨ candidate ∈ taken
  · obtain ⟨k, _, _, found, _, _⟩ := uniquify_of_taken used
    rw [found]
    exact isReserved_numbered candidate k
  · obtain ⟨unreserved, free⟩ := not_or.mp used
    rw [uniquify_of_free (eq_false_of_ne_true unreserved) free]
    exact eq_false_of_ne_true unreserved

/-- The search when nothing bounds it: the numbered names are tested in turn from `n` on, and the
first one that is not taken is found. The names tested are counted. -/
inductive Search (isTaken : String → Bool) (candidate : String) :
    (n tests : Nat) → (name : String) → Prop
  | found {n : Nat} (free : isTaken (candidate ++ toString n) = false) :
      Search isTaken candidate n 1 (candidate ++ toString n)
  | next {n tests : Nat} {name : String} (passed : isTaken (candidate ++ toString n) = true)
      (further : Search isTaken candidate (n + 1) tests name) :
      Search isTaken candidate n (tests + 1) name

namespace Search

variable {isTaken : String → Bool} {n tests more : Nat} {name other : String}

theorem of_passed {k : Nat} (ends : n + more = k)
    (passed : ∀ i, n ≤ i → i < k → isTaken (candidate ++ toString i) = true)
    (free : isTaken (candidate ++ toString k) = false) :
    Search isTaken candidate n (more + 1) (candidate ++ toString k) := by
  induction more generalizing n with
  | zero =>
    obtain rfl : n = k := ends
    exact .found free
  | succ more ih =>
    refine .next (passed n (Nat.le_refl n) (by omega)) ?_
    exact ih (by omega) fun i low high => passed i (by omega) high

theorem unique (first : Search isTaken candidate n tests name)
    (second : Search isTaken candidate n more other) : tests = more ∧ name = other := by
  induction first generalizing more with
  | found free =>
    cases second with
    | found => exact ⟨rfl, rfl⟩
    | next passed => rw [free] at passed; cases passed
  | next passed _ ih =>
    cases second with
    | found free => rw [free] at passed; cases passed
    | next _ further =>
      obtain ⟨rfl, rfl⟩ := ih further
      exact ⟨rfl, rfl⟩

end Search

theorem search_uniquify {k : Nat} (positive : 1 ≤ k)
    (found : uniquify candidate taken = candidate ++ toString k)
    (free : candidate ++ toString k ∉ taken)
    (earlier : ∀ i, 1 ≤ i → i < k → candidate ++ toString i ∈ taken) :
    Search (unusable taken) candidate 1 k (uniquify candidate taken) := by
  have run : Search (unusable taken) candidate 1 (k - 1 + 1) (candidate ++ toString k) := by
    refine .of_passed (by omega) (fun i low high => ?_) ?_
    · rw [unusable_numbered, decide_eq_true (earlier i low high)]
    · rw [unusable_numbered, decide_eq_false free]
  rwa [Nat.sub_add_cancel positive, ← found] at run

/-- A name that may be used is kept. Any other gets the least number with which it is free. The
search for that number has no bound and ends all the same, with the result: it tests at most one
name more than there are taken. The result is neither taken nor reserved. -/
theorem uniquify_first_free (candidate : String) (taken : List String) :
    (isReserved candidate = false → candidate ∉ taken → uniquify candidate taken = candidate) ∧
      (isReserved candidate = true ∨ candidate ∈ taken → ∃ n ≤ taken.length + 1,
        uniquify candidate taken = candidate ++ toString n ∧
          IsLeast {k : Nat | 1 ≤ k ∧ candidate ++ toString k ∉ taken} n ∧
          ∀ tests name, Search (unusable taken) candidate 1 tests name ↔
            tests = n ∧ name = uniquify candidate taken) ∧
      uniquify candidate taken ∉ taken ∧ isReserved (uniquify candidate taken) = false := by
  refine ⟨uniquify_of_free, fun used => ?_, uniquify_not_mem candidate taken,
    isReserved_uniquify candidate taken⟩
  obtain ⟨n, positive, short, found, free, earlier⟩ := uniquify_of_taken used
  have search := search_uniquify positive found free earlier
  refine ⟨n, short, found, ⟨⟨positive, free⟩, ?_⟩, fun tests name => ⟨fun run => ?_, ?_⟩⟩
  · rintro k ⟨low, other⟩
    by_contra below
    exact other (earlier k low (Nat.lt_of_not_le below))
  · exact run.unique search
  · rintro ⟨rfl, rfl⟩
    exact search

/-- The name `class` is reserved, and its first two numbered forms are taken. -/
theorem uniquify_class : isReserved "class" = true ∧
    uniquify "class" ["class2", "class1"] = "class3" ∧
    Search (unusable ["class2", "class1"]) "class" 1 3 "class3" := by
  have reserved : isReserved "class" = true := by decide
  have third : uniquify "class" ["class2", "class1"] = "class3" := by decide +kernel
  obtain ⟨_, search, _⟩ := uniquify_first_free "class" ["class2", "class1"]
  obtain ⟨n, _, found, _, only⟩ := search (.inl reserved)
  have three : n = 3 := numbered_inj.mp (found.symm.trans third)
  exact ⟨reserved, third, (only 3 "class3").mpr ⟨three.symm, third.symm⟩⟩

end CreatorSynth
