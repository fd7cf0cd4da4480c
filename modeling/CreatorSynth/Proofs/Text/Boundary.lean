import CreatorSynth.Proofs.Token.Places

/-! Offsets between the characters of a text. A cut succeeds just if both its ends are such. -/
namespace CreatorSynth.Text

/-- The offset lies between two characters of the text, or at one of its ends. -/
def Boundary (cs : List Char) (n : Nat) : Prop :=
  ∃ front back, cs = front ++ back ∧ byteLength front = n

variable {cs front back mid rest : List Char} {n start stop : Nat}

theorem boundary_append (front back : List Char) : Boundary (front ++ back) (byteLength front) :=
  ⟨front, back, rfl, rfl⟩

theorem boundary_zero (cs : List Char) : Boundary cs 0 :=
  boundary_append [] cs

theorem Boundary.le (between : Boundary cs n) : n ≤ byteLength cs := by
  obtain ⟨front, back, rfl, rfl⟩ := between
  simp

theorem Boundary.max (first : Boundary cs start) (second : Boundary cs stop) :
    Boundary cs (max start stop) := by
  rcases Nat.le_total start stop with before | behind
  · rwa [Nat.max_eq_right before]
  · rwa [Nat.max_eq_left behind]

theorem Boundary.min (first : Boundary cs start) (second : Boundary cs stop) :
    Boundary cs (min start stop) := by
  rcases Nat.le_total start stop with before | behind
  · rwa [Nat.min_eq_left before]
  · rwa [Nat.min_eq_right behind]

theorem dropBytes?_eq_some_iff :
    dropBytes? n cs = some rest ↔ ∃ front, cs = front ++ rest ∧ byteLength front = n := by
  constructor
  · intro dropped
    fun_induction dropBytes? n cs with
    | case1 cs =>
      cases dropped
      exact ⟨[], rfl, rfl⟩
    | case2 n => cases dropped
    | case3 n c cs fits ih =>
      obtain ⟨front, rfl, length⟩ := ih dropped
      refine ⟨c :: front, rfl, ?_⟩
      simp only [byteLength]
      omega
    | case4 n c cs fits => cases dropped
  · rintro ⟨front, rfl, rfl⟩
    exact dropBytes?_append front rest

theorem takeBytes?_eq_some_iff :
    takeBytes? n cs = some mid ↔ ∃ back, cs = mid ++ back ∧ byteLength mid = n := by
  constructor
  · intro taken
    fun_induction takeBytes? n cs generalizing mid with
    | case1 cs =>
      cases taken
      exact ⟨cs, rfl, rfl⟩
    | case2 n => cases taken
    | case3 n c cs fits ih =>
      obtain ⟨more, found, rfl⟩ := Option.map_eq_some_iff.mp taken
      obtain ⟨back, rfl, length⟩ := ih found
      refine ⟨back, rfl, ?_⟩
      simp only [byteLength]
      omega
    | case4 n c cs fits => cases taken
  · rintro ⟨back, rfl, rfl⟩
    exact takeBytes?_append mid back

theorem slice?_eq_some_iff : slice? cs start stop = some mid ↔
    ∃ front back, cs = front ++ mid ++ back ∧ byteLength front = start ∧
      byteLength (front ++ mid) = stop := by
  constructor
  · intro cut
    unfold slice? at cut
    split at cut
    · rename_i ordered
      obtain ⟨rest, dropped, taken⟩ := Option.bind_eq_some_iff.mp cut
      obtain ⟨front, rfl, before⟩ := dropBytes?_eq_some_iff.mp dropped
      obtain ⟨back, rfl, length⟩ := takeBytes?_eq_some_iff.mp taken
      refine ⟨front, back, (List.append_assoc _ _ _).symm, before, ?_⟩
      rw [byteLength_append]
      omega
    · cases cut
  · rintro ⟨front, back, rfl, rfl, rfl⟩
    rw [byteLength_append]
    exact slice?_append front mid back

theorem slice?_within (front back : List Char) (cut : slice? cs start stop = some mid) :
    slice? (front ++ cs ++ back) (byteLength front + start) (byteLength front + stop) =
      some mid := by
  obtain ⟨before, after, rfl, rfl, rfl⟩ := slice?_eq_some_iff.mp cut
  apply slice?_eq_some_iff.mpr
  refine ⟨front ++ before, after ++ back, ?_, ?_, ?_⟩
  · simp only [List.append_assoc]
  · exact byteLength_append front before
  · rw [List.append_assoc, byteLength_append]

/-- Of two beginnings of a text the one with fewer bytes is a beginning of the other. -/
theorem prefix_of_byteLength_le {other : List Char} (first : front <+: cs) (second : other <+: cs)
    (shorter : byteLength front ≤ byteLength other) : front <+: other := by
  rcases List.prefix_or_prefix_of_prefix first second with inside | ⟨more, rfl⟩
  · exact inside
  · rw [byteLength_append] at shorter
    cases more with
    | nil => exact ⟨[], by simp⟩
    | cons c more =>
      have positive := byteLength_pos (List.cons_ne_nil c more)
      omega

/-- A cut succeeds just if it is made forwards between characters. -/
theorem isSome_slice?_iff : (slice? cs start stop).isSome = true ↔
    start ≤ stop ∧ Boundary cs start ∧ Boundary cs stop := by
  constructor
  · intro found
    obtain ⟨mid, cut⟩ := Option.isSome_iff_exists.mp found
    obtain ⟨front, back, rfl, rfl, rfl⟩ := slice?_eq_some_iff.mp cut
    refine ⟨?_, ?_, boundary_append (front ++ mid) back⟩
    · rw [byteLength_append]
      exact Nat.le_add_right _ _
    · rw [List.append_assoc]
      exact boundary_append front (mid ++ back)
  · rintro ⟨ordered, ⟨front, rest, whole, rfl⟩, ⟨longer, back, whole', rfl⟩⟩
    have inside : front <+: longer :=
      prefix_of_byteLength_le ⟨rest, whole.symm⟩ ⟨back, whole'.symm⟩ ordered
    obtain ⟨mid, rfl⟩ := inside
    rw [slice?_eq_some_iff.mpr ⟨front, back, whole', rfl, rfl⟩]
    rfl

theorem exists_slice? (ordered : start ≤ stop) (first : Boundary cs start)
    (last : Boundary cs stop) : ∃ mid, slice? cs start stop = some mid :=
  Option.isSome_iff_exists.mp (isSome_slice?_iff.mpr ⟨ordered, first, last⟩)

theorem boundaries_of_slice? (cut : slice? cs start stop = some mid) :
    Boundary cs start ∧ Boundary cs stop :=
  (isSome_slice?_iff.mp (Option.isSome_iff_exists.mpr ⟨mid, cut⟩)).2

theorem slice?_eq_none_iff : slice? cs start stop = none ↔
    ¬ (start ≤ stop ∧ Boundary cs start ∧ Boundary cs stop) := by
  rw [← isSome_slice?_iff, Bool.not_eq_true, Option.isSome_eq_false_iff, Option.isNone_iff_eq_none]

end CreatorSynth.Text
