import CreatorSynth.Proofs.Parser.Steady.Classes

/-! Imports and what else stands at the top of a source are read alike within a window. -/
namespace CreatorSynth
open Text

namespace Parser

variable {W : Window} {modifiers modifiers' : Modifiers} {i j k : Nat} {doc doc' : Option String}

/-- The right tail begins with nothing that an import or a package declaration goes on with. -/
def Window.EndsItem (W : Window) (k : Nat) : Prop :=
  ∀ t ∈ [Token.symbol .dot, .operator '*', .name "static", .symbol .semicolon], W.Settled k t

theorem Window.endsItem (W : Window) : W.EndsItem 1 :=
  fun t _ => W.settled t

theorem steady_importTailWithin (ends : W.EndsItem k) {m n : Nat} (le : m ≤ n) :
    W.Steady k (importTailWithin m) (importTailWithin n) Eq := by
  induction m generalizing n with
  | zero => exact .throw
  | succ m ih =>
    obtain ⟨n, rfl⟩ : ∃ n', n = n' + 1 := ⟨n - 1, by omega⟩
    refine (steady_accept (ends _ (by simp))).bind fun dotted _ same => ?_
    subst same
    split
    · refine (steady_acceptToken (t := .operator '*') (ends _ (by simp)) nofun).bind
        fun starred _ same => ?_
      subst same
      split
      · exact .pure rfl
      · refine (steady_identifier.weaken (Nat.zero_le k)).bind fun segment _ same => ?_
        subst same
        exact (ih (Nat.le_of_succ_le_succ le)).bind fun tail _ same => .pure (by rw [same])
    · exact .pure rfl

theorem steady_importTail (ends : W.EndsItem k) : W.Steady k importTail importTail Eq := by
  refine ⟨fun {us c d c' tail} here run inside => ?_⟩
  rw [importTail, on_bind_of_ok on_get] at run
  rw [importTail, on_bind_of_ok on_get]
  have le := Nat.add_le_add_right here.length_le 1
  exact (steady_importTailWithin ends le).follow here run inside

theorem steady_importDecl (ends : W.EndsItem k) :
    W.Steady k (importDecl i) (importDecl j) fun a b => a.plain = b.plain := by
  refine ((steady_expectKeyword _).weaken (Nat.zero_le k)).bind fun _ _ _ => ?_
  refine (steady_acceptWord (ends _ (by simp))).bind fun isStatic _ same => ?_
  subst same
  refine (steady_identifier.weaken (Nat.zero_le k)).bind fun first _ same => ?_
  subst same
  refine (steady_importTail ends).bind fun tail _ same => ?_
  subst same
  refine (steady_endDeclaration (.inr (ends _ (by simp)))).bind fun _ _ _ => ?_
  exact (steady_spanFrom i j).bind fun _ _ _ => .pure rfl

/-- An item without its place. -/
def Item.plain (renumber : ClassId → ClassId) : Item → Item
  | blank => blank
  | package name _ => package name 0
  | imported decl _ => imported decl.plain 0
  | declared number => declared (renumber number)

theorem steady_packageItem (ends : W.EndsItem k) :
    W.Steady k packageItem packageItem fun a b => a.plain W.renumber = b.plain id := by
  refine ((steady_expectKeyword _).weaken (Nat.zero_le k)).bind fun _ _ _ => ?_
  refine (steady_qualifiedName (ends _ (by simp))).bind fun name _ same => ?_
  subst same
  refine (steady_endDeclaration (.inr (ends _ (by simp)))).bind fun _ _ _ => ?_
  exact steady_closeDocs.bind fun _ _ _ => steady_lastStop.bind fun _ _ _ => .pure rfl

theorem steady_importItem (ends : W.EndsItem k) :
    W.Steady k (importItem i) (importItem j) fun a b => a.plain W.renumber = b.plain id := by
  refine (steady_importDecl ends).bind fun decl decl' same => ?_
  refine steady_closeDocs.bind fun _ _ _ => steady_lastStop.bind fun _ _ _ => .pure ?_
  simp only [Item.plain, same]

theorem steady_itemFrom (ends : W.EndsItem k) {next next' : List Token}
    (signs : next.map Token.sign = next'.map Token.sign)
    (plain : modifiers.plain W.key = modifiers'.plain W.key)
    (docs : doc.map W.key = doc'.map W.key) :
    W.Steady k (itemFrom modifiers i doc next) (itemFrom modifiers' j doc' next') fun a b =>
      a.plain W.renumber = b.plain id := by
  have heads : next.head?.map Token.sign = next'.head?.map Token.sign := by
    rw [← List.head?_map, ← List.head?_map, signs]
  have word : ∀ word, next.head? = some (.keyword word) ↔ next'.head? = some (.keyword word) :=
    fun word => some_iff heads nofun
  refine .ite (word _) (fun _ => steady_packageItem ends) fun _ => ?_
  refine .ite (word _) (fun _ => steady_importItem ends) fun _ => ?_
  refine .ite ?_ (fun _ => ?_) fun _ => ?_
  · rw [← beginsClass_sign, signs, beginsClass_sign]
  · refine ((steady_classDecl plain docs).weaken (Nat.zero_le k)).bind fun _ _ same => .pure ?_
    simp only [Item.plain, same, id_eq]
  · exact ⟨fun _ run _ => by
      rw [on_bind_of_ok on_nextStart] at run
      cases run⟩

/-- An item may end with the window if the right tail does not go on with it. -/
theorem steady_item (ends : W.EndsItem k) :
    W.Steady k item item fun a b => a.plain W.renumber = b.plain id := by
  refine (steady_accept (ends _ (by simp))).bind fun blank _ same => ?_
  subst same
  split
  · exact .pure rfl
  refine Window.Steady.bind_of (n := 1) steady_nextStart (fun i j place => ?_)
    (fun run => Eats.eats run) (Nat.le_add_left 1 k)
  refine (steady_docBefore place).bind fun doc doc' docs => ?_
  refine Window.Steady.bind_of (n := 1) steady_modifiers (fun modifiers modifiers' plain => ?_)
    (fun run => Eats.eats run) (Nat.le_add_left 1 k)
  refine Window.Steady.bind_of (n := 2) (steady_upcoming 2) (fun next next' signs =>
    steady_itemFrom ends signs plain docs) (fun run => EatsTwo.eats run) (Nat.le_add_left 2 k)

theorem steady_unitStep :
    W.Steady 1 unitStep unitStep fun a b =>
      a.map (Item.plain W.renumber) = b.map (Item.plain id) := by
  refine steady_atEnd.bind fun ended _ same => ?_
  subst same
  split
  · exact .pure rfl
  · exact (steady_item W.endsItem).bind fun a b same => .pure (congrArg some same)

theorem Item.plain_addTo (key : String → String) (renumber : ClassId → ClassId)
    (u : CompilationUnit) (item : Item) :
    (item.addTo u).plain key renumber =
      (item.plain renumber).addTo (u.plain key renumber) := by
  cases item with
  | blank => rfl
  | package name stop => rfl
  | imported decl stop => simp [addTo, plain, CompilationUnit.plain]
  | declared number => simp [addTo, plain, CompilationUnit.plain]

theorem Item.plain_foldl_addTo (key : String → String) (renumber : ClassId → ClassId)
    (u : CompilationUnit) (items : List Item) :
    (items.foldl addTo u).plain key renumber =
      (items.map (plain renumber)).foldl addTo (u.plain key renumber) := by
  induction items generalizing u with
  | nil => rfl
  | cons item items ih => rw [List.foldl_cons, ih, plain_addTo, List.map_cons, List.foldl_cons]

theorem steady_unit (left : W.leftBase = []) (right : W.rightBase = []) :
    W.Steady 1 unit unit fun u v => u.plain W.key W.renumber = v.plain W.key id := by
  refine ⟨fun {us c d c' u} here run inside => ?_⟩
  obtain ⟨items, mid, read, ended⟩ := on_bind_eq_ok.mp run
  cases ended
  obtain ⟨items', d', us', read', same, behind⟩ :=
    (steady_many steady_unitStep).follow here read inside
  have declared : (items.foldl Item.addTo CompilationUnit.empty).plain W.key W.renumber =
      (items'.foldl Item.addTo CompilationUnit.empty).plain W.key id := by
    rw [Item.plain_foldl_addTo, Item.plain_foldl_addTo, same]
    rfl
  obtain ⟨cs, ds, first, second, classes⟩ := behind.classes
  rw [left, List.nil_append] at first
  rw [right, List.nil_append] at second
  refine ⟨{ items'.foldl Item.addTo CompilationUnit.empty with classes := d'.classes }, d', us', ?_,
    ?_, behind⟩
  · rw [unit, on_bind_of_ok read']
    rfl
  · simp only [CompilationUnit.plain, CompilationUnit.mk.injEq, true_and] at declared ⊢
    rw [first, second]
    exact ⟨declared.1, declared.2.1, classes, declared.2.2.2⟩

end Parser

end CreatorSynth
