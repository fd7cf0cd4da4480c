import Mathlib.Data.List.Induction
import CreatorSynth.Proofs.Parser.Header

/-! The items of a source one after another. Behind the last import, or behind the package
declaration, a source parts in two, and what is read in front does not depend on what follows. -/
namespace CreatorSynth
open Text

namespace Parser

section Runs

variable {src : Source} {c c' mid : Cursor} {items : List Item}

theorem steps_of_many_unitStep (run : (many unitStep).on src c = .ok (items, c')) :
    Steps unitStep src c items c' :=
  many_induction (motive := Steps unitStep src) .done
    (fun first others => .more first (Eats.eats (unitStep_some first)) others) run

theorem Chain.moves (chain : Chain unitStep src c items c') : ∃ taken, c.Moves taken c' := by
  induction chain with
  | nil => exact ⟨[], .refl _⟩
  | cons first _ _ ih =>
    obtain ⟨taken, here⟩ := Onward.onward first
    obtain ⟨more, behind⟩ := ih
    exact ⟨taken ++ more, here.trans behind⟩

end Runs

/-- Items in front of the end of a window are read alike on both sides. -/
theorem Window.follow_items {W : Window} {k : Nat} {us : List (Located × Located)} {c d c' : Cursor}
    {items : List Item} (ends : W.EndsItem k) (chain : Chain unitStep W.left c items c')
    (here : W.At us c d) (inside : W.Inside k c') :
    ∃ items' d' us', Chain unitStep W.right d items' d' ∧
      items.map (Item.plain W.renumber) = items'.map (Item.plain id) ∧ W.At us' c' d' := by
  induction chain generalizing us d with
  | nil => exact ⟨[], d, us, .nil, rfl, here⟩
  | cons first shorter others ih =>
    obtain ⟨taken, moves⟩ := others.moves
    have inside' := inside.earlier (n := 0) moves.length_le moves.classes (Nat.le_refl k)
    obtain ⟨b, e, us₁, run, same, there⟩ :=
      (steady_item ends).follow here (unitStep_some first) inside'
    have less : e.rest.length < d.rest.length := Eats.eats run
    obtain ⟨items', d', us', chain', alike, behind⟩ := ih there inside
    refine ⟨b :: items', d', us', .cons (unitStep_of_item ?_ run) less chain', ?_, behind⟩
    · exact List.ne_nil_of_length_pos (Nat.zero_lt_of_lt less)
    · rw [List.map_cons, List.map_cons, same, alike]

section Folds

variable {key : String → String} {renumber : ClassId → ClassId} {items back : List Item}
  {u : CompilationUnit} {decl : Import}

/-- An import goes in front of items that are no imports as well as behind them. -/
theorem foldl_imported (none : back.filterMap Item.import? = []) :
    (back.map (Item.plain renumber)).foldl Item.addTo ((Item.imported decl 0).addTo u) =
      (Item.imported decl 0).addTo ((back.map (Item.plain renumber)).foldl Item.addTo u) := by
  induction back generalizing u with
  | nil => rfl
  | cons item back ih =>
    have swapped : (item.plain renumber).addTo ((Item.imported decl 0).addTo u) =
        (Item.imported decl 0).addTo ((item.plain renumber).addTo u) := by
      cases item with
      | imported decl stop => cases none
      | _ => rfl
    have others : back.filterMap Item.import? = [] := by
      cases item with
      | imported decl stop => cases none
      | _ => exact none
    rw [List.map_cons, List.foldl_cons, List.foldl_cons, swapped, ih others]

end Folds

theorem exists_last_of_filterMap {α β : Type} {f : α → Option β} {as : List α} {b : β}
    (last : (as.filterMap f).getLast? = some b) :
    ∃ front a back, as = front ++ a :: back ∧ f a = some b ∧ back.filterMap f = [] := by
  induction as using List.reverseRecOn with
  | nil => cases last
  | append_singleton as a ih =>
    rw [List.filterMap_append] at last
    cases taken : f a with
    | none =>
      rw [List.filterMap_cons_none taken, List.filterMap_nil, List.append_nil] at last
      obtain ⟨front, a', back, rfl, here, none⟩ := ih last
      refine ⟨front, a', back ++ [a], by simp, here, ?_⟩
      rw [List.filterMap_append, none, List.filterMap_cons_none taken]
      rfl
    | some b' =>
      rw [List.filterMap_cons_some taken, List.filterMap_nil, List.getLast?_concat] at last
      exact ⟨as, a, [], rfl, taken.trans last, rfl⟩

section Cut

variable {src : Source} {c c' : Cursor} {items : List Item}

theorem exists_item {front back : List Item} {found : Item} {stop : Nat}
    (steps : Steps unitStep src c (front ++ found :: back) c') (order : Located.InOrder c.rest)
    (some : ∀ t ∈ c.rest, t.start < t.stop) (header : found.headerStop? = Option.some stop) :
    ∃ mid, Chain unitStep src c (front ++ [found]) mid ∧ Steps unitStep src mid back c' ∧
      EndsHeader c mid ∧ mid.lastStop = stop ∧
      ∀ decl, found = .imported decl stop → decl.span.stop = stop := by
  obtain ⟨before, chain, others⟩ := steps.exists_chain
  cases others with
  | more first shorter behind =>
    obtain ⟨taken, moves⟩ := chain.moves
    rw [moves.rest] at order some
    obtain ⟨ends, _, stops, span⟩ := item_ends (unitStep_some first)
      (List.pairwise_append.mp order).2.1 (fun t member => some t (List.mem_append_right _ member))
      header
    exact ⟨_, chain.snoc first shorter, behind, ⟨ends.lands.behind moves.rest, ends.docFloor⟩,
      stops, span⟩

/-- Where a source parts for an import: behind the last import, behind the package declaration if
there is no import, or else in front of everything. -/
inductive Parts (c : Cursor) (items : List Item) (mid : Cursor) : Prop
  | behindImport {decl : Import} (ends : EndsHeader c mid)
      (last : (items.filterMap Item.import?).getLast? = some decl)
      (stop : decl.span.stop = mid.lastStop)
  | behindPackage (ends : EndsHeader c mid) (none : items.filterMap Item.import? = [])
      (last : (items.filterMap Item.headerStop?).getLast? = some mid.lastStop)
  | inFront (same : mid = c) (none : items.filterMap Item.headerStop? = [])

theorem exists_parts (steps : Steps unitStep src c items c') (order : Located.InOrder c.rest)
    (some : ∀ t ∈ c.rest, t.start < t.stop) :
    ∃ front back mid, items = front ++ back ∧ Chain unitStep src c front mid ∧
      Steps unitStep src mid back c' ∧ back.filterMap Item.import? = [] ∧
      Parts c items mid := by
  cases imports : (items.filterMap Item.import?).getLast? with
  | some decl =>
    obtain ⟨front, found, back, rfl, taken, none⟩ := exists_last_of_filterMap imports
    obtain ⟨stop, rfl⟩ : ∃ stop, found = .imported decl stop := by
      cases found <;> cases taken
      exact ⟨_, rfl⟩
    obtain ⟨mid, chain, behind, ends, stops, span⟩ := exists_item steps order some rfl
    exact ⟨_, back, mid, by simp, chain, behind, none, .behindImport ends imports
      ((span decl rfl).trans stops.symm)⟩
  | none =>
    have bare : items.filterMap Item.import? = [] := List.getLast?_eq_none_iff.mp imports
    cases headers : (items.filterMap Item.headerStop?).getLast? with
    | some stop =>
      obtain ⟨front, found, back, rfl, taken, _⟩ := exists_last_of_filterMap headers
      obtain ⟨mid, chain, behind, ends, rfl, _⟩ := exists_item steps order some taken
      refine ⟨_, back, mid, by simp, chain, behind, ?_, .behindPackage ends bare headers⟩
      refine List.filterMap_eq_nil_iff.mpr fun item member => ?_
      exact List.filterMap_eq_nil_iff.mp bare item
        (List.mem_append_right _ (List.mem_cons_of_mem _ member))
    | none =>
      exact ⟨[], items, c, rfl, .nil, steps, bare,
        .inFront rfl (List.getLast?_eq_none_iff.mp headers)⟩

end Cut

end Parser

end CreatorSynth
