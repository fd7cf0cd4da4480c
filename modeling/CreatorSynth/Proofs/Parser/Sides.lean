import Mathlib.Data.List.Find
import CreatorSynth.Proofs.Parser.Steady.Units
import CreatorSynth.Proofs.Parser.Taking
import CreatorSynth.Proofs.Text.Boundary
import CreatorSynth.Proofs.Token.Places

/-! Sources that begin alike, or end alike. What is read in front of the place where they part, or
behind the place from which on they are the same, is the same up to its place in the source. -/
namespace CreatorSynth
open Text

namespace Text

theorem dropBytes?_behind (front cs : List Char) (n : Nat) :
    dropBytes? (byteLength front + n) (front ++ cs) = dropBytes? n cs := by
  induction front with
  | nil => rw [byteLength, Nat.zero_add, List.nil_append]
  | cons c front ih =>
    rw [List.cons_append, dropBytes?_cons (by simp only [byteLength]; omega), ← ih]
    congr 1
    simp only [byteLength]
    omega

theorem slice?_behind (front cs : List Char) (start stop : Nat) :
    slice? (front ++ cs) (byteLength front + start) (byteLength front + stop) =
      slice? cs start stop := by
  unfold slice?
  rw [dropBytes?_behind, Nat.add_sub_add_left]
  simp only [Nat.add_le_add_iff_left]

theorem slice?_in_front {front cs ds : List Char} {start stop : Nat}
    (inside : stop ≤ byteLength front) (mid : List Char) :
    slice? (front ++ cs) start stop = some mid → slice? (front ++ ds) start stop = some mid := by
  intro cut
  obtain ⟨before, after, whole, rfl, rfl⟩ := slice?_eq_some_iff.mp cut
  rcases List.append_eq_append_iff.mp whole with ⟨more, same, _⟩ | ⟨more, rfl, _⟩
  · have none : more = [] := by
      rw [same, byteLength_append] at inside
      cases more with
      | nil => rfl
      | cons c more =>
        have positive := c.utf8Size_pos
        simp only [byteLength] at inside
        omega
    rw [none, List.append_nil] at same
    rw [← same, byteLength_append]
    exact slice?_append before mid ds
  · rw [List.append_assoc (before ++ mid), byteLength_append]
    exact slice?_append before mid (more ++ ds)

end Text

namespace Piece

variable {pieces more : List Piece} {rest : List Char} {t : Located} {n : Nat}

/-- Every token has a text. -/
def Filled (pieces : List Piece) : Prop :=
  ∀ t, token t ∈ pieces → t.text.toList ≠ []

theorem filled_append : Filled (pieces ++ more) ↔ Filled pieces ∧ Filled more := by
  simp only [Filled, List.mem_append, or_imp, forall_and]

theorem Fit.filled (fit : Fit pieces rest) : Filled pieces := by
  induction pieces with
  | nil => nofun
  | cons piece pieces ih =>
    intro t member
    cases member with
    | head =>
      rcases fit.1 with stands | ⟨_, gap, _⟩
      · exact stands.text_ne_nil
      · cases gap
    | tail _ member => exact ih fit.2 t member

theorem AllStand.filled (stand : AllStand pieces rest) : Filled pieces :=
  stand.fit.filled

theorem Filled.places (filled : Filled pieces) (member : t ∈ locate n pieces) :
    n ≤ t.start ∧ t.start < t.stop ∧ t.stop = t.start + byteLength t.token.text.toList ∧
      t.stop ≤ n + byteLength (pieces.flatMap text) := by
  induction pieces generalizing n with
  | nil => cases member
  | cons piece pieces ih =>
    have others : Filled pieces := fun t member => filled t (List.mem_cons_of_mem _ member)
    rw [List.flatMap_cons, byteLength_append]
    cases piece with
    | gap cs =>
      obtain ⟨first, some, stop, last⟩ := ih others member
      simp only [text] at last ⊢
      exact ⟨by omega, some, stop, by omega⟩
    | token u =>
      cases member with
      | head =>
        have some := byteLength_pos (filled u List.mem_cons_self)
        simp only [text]
        exact ⟨Nat.le_refl n, by omega, True.intro, by omega⟩
      | tail _ member =>
        obtain ⟨first, some, stop, last⟩ := ih others member
        simp only [text] at last ⊢
        exact ⟨by omega, some, stop, by omega⟩

theorem ahead_behind (n : Nat) (pieces : List Piece) :
    ahead n pieces = (ahead 0 pieces).map (Located.behind n) := by
  rw [ahead, ahead, ← Nat.add_zero n, locate_behind, Nat.add_zero]
  exact Located.filter_behind n (!·.isDoc) _

theorem length_ahead (n : Nat) (pieces : List Piece) :
    (ahead n pieces).length = (tokens pieces).length := by
  rw [← map_token_ahead n, List.length_map]

theorem inOrder_ahead (n : Nat) (pieces : List Piece) : Located.InOrder (ahead n pieces) :=
  (inOrder_locate n pieces).filter _

/-- The documentation among the pieces. -/
def notes (n : Nat) (pieces : List Piece) : List Located :=
  (locate n pieces).filter (·.token.isDoc)

theorem notes_append (n : Nat) (pieces more : List Piece) :
    notes n (pieces ++ more) =
      notes n pieces ++ notes (n + byteLength (pieces.flatMap text)) more := by
  rw [notes, locate_append, List.filter_append]
  rfl

theorem notes_behind (n : Nat) (pieces : List Piece) :
    notes n pieces = (notes 0 pieces).map (Located.behind n) := by
  rw [notes, notes, ← Nat.add_zero n, locate_behind, Nat.add_zero]
  exact Located.filter_behind n (·.isDoc) _

theorem Filled.notes_places (filled : Filled pieces) (member : t ∈ notes n pieces) :
    n ≤ t.start ∧ t.start < t.stop ∧ t.stop ≤ n + byteLength (pieces.flatMap text) := by
  obtain ⟨first, some, _, last⟩ := filled.places (List.mem_filter.mp member).1
  exact ⟨first, some, last⟩

end Piece

namespace Parser
open Piece Located

theorem Source.breaksBetween_of_cut {src src' : Source} {stop start : Nat} {b : Bool}
    (dialect : src.dialect = src'.dialect)
    (same : ∀ gap, slice? src.text (min stop start) start = some gap →
      slice? src'.text (min stop start) start = some gap)
    (found : src.breaksBetween stop start = .ok b) : src'.breaksBetween stop start = .ok b := by
  unfold Source.breaksBetween at found ⊢
  rw [← dialect]
  split at found
  · exact found
  · split at found
    · rename_i gap cut
      rw [same gap cut]
      exact found
    · cases found

/-- The source that pieces make up. -/
def sourceOfPieces (d : Dialect) (pieces : List Piece) : Source :=
  sourceOf (String.ofList (pieces.flatMap Piece.text)) d (locate 0 pieces)

section Sources

variable {d : Dialect} {front pieces : List Piece} {c : Cursor} {i k : Nat}

theorem text_sourceOfPieces : (sourceOfPieces d pieces).text = pieces.flatMap Piece.text :=
  String.toList_ofList

theorem text_sourceOfPieces_append :
    (sourceOfPieces d (front ++ pieces)).text =
      front.flatMap Piece.text ++ pieces.flatMap Piece.text := by
  rw [text_sourceOfPieces, List.flatMap_append]

theorem stop_sourceOfPieces :
    (sourceOfPieces d pieces).stop = ((ahead 0 pieces).getLast?.map (·.stop)).getD 0 :=
  rfl

/-- Documentation is looked for behind the pieces in front, where it is not taken yet. -/
theorem docAt_behind (floor : ∀ t ∈ notes 0 front, t.start < c.docFloor) :
    docAt (sourceOfPieces d (front ++ pieces)) c (byteLength (front.flatMap Piece.text) + k) =
      ((notes 0 pieces).reverse.find? fun t => decide (t.stop ≤ k) &&
        decide (c.docFloor ≤ byteLength (front.flatMap Piece.text) + t.start)).map
          (·.token.text) := by
  have docs : (sourceOfPieces d (front ++ pieces)).docs = notes 0 front ++
      (notes 0 pieces).map (Located.behind (byteLength (front.flatMap Piece.text))) := by
    rw [← notes_behind]
    change notes 0 (front ++ pieces) = _
    rw [notes_append, Nat.zero_add]
  have none : (notes 0 front).reverse.find? (fun t =>
      decide (t.stop ≤ byteLength (front.flatMap Piece.text) + k) &&
        decide (c.docFloor ≤ t.start)) = none := by
    refine List.find?_eq_none.mpr fun t member => ?_
    have taken := floor t (List.mem_reverse.mp member)
    simp only [Bool.and_eq_true, decide_eq_true_eq, not_and]
    omega
  rw [docAt, docs, List.reverse_append, List.find?_append, none, Option.or_none, ← List.map_reverse,
    List.find?_map, Option.map_map]
  refine congrArg (Option.map _) (List.find?_congr fun t _ => ?_)
  exact congrArg (· && _) (decide_eq_decide.mpr Nat.add_le_add_iff_left)

/-- Documentation in front of an offset does not depend on what stands behind it. -/
theorem docAt_in_front (filled : Filled pieces)
    (inside : i ≤ byteLength (front.flatMap Piece.text)) :
    docAt (sourceOfPieces d (front ++ pieces)) c i =
      ((notes 0 front).reverse.find? fun t => decide (t.stop ≤ i) &&
        decide (c.docFloor ≤ t.start)).map (·.token.text) := by
  have docs : (sourceOfPieces d (front ++ pieces)).docs =
      notes 0 front ++ notes (byteLength (front.flatMap Piece.text)) pieces := by
    change notes 0 (front ++ pieces) = _
    rw [notes_append, Nat.zero_add]
  have none : (notes (byteLength (front.flatMap Piece.text)) pieces).reverse.find? (fun t =>
      decide (t.stop ≤ i) && decide (c.docFloor ≤ t.start)) = none := by
    refine List.find?_eq_none.mpr fun t member => ?_
    obtain ⟨first, some, _⟩ := filled.notes_places (List.mem_reverse.mp member)
    simp only [Bool.and_eq_true, decide_eq_true_eq, not_and]
    omega
  rw [docAt, docs, List.reverse_append, List.find?_append, none, Option.none_or]

end Sources

/-- The tokens that the pieces in front end with. -/
def Rests (pieces : List Piece) : Prop :=
  ∀ t ∈ (tokens pieces).getLast?, t.Calm

section Sides

variable {d : Dialect} {front front' back back' pieces : List Piece} {c e : Cursor} {limit : Nat}

/-- Two sources that begin alike. -/
def Window.inFront (d : Dialect) (front : List Piece) {back back' : List Piece} (limit : Nat)
    (filled : Filled front) (filled' : Filled back) (filled'' : Filled back')
    (longer : (tokens back).length ≤ (tokens back').length)
    (unequal : (tokens back').head? ≠ some (.symbol .equals)) : Window where
  left := sourceOfPieces d (front ++ back)
  right := sourceOfPieces d (front ++ back')
  leftTail := ahead (byteLength (front.flatMap Piece.text)) back
  rightTail := ahead (byteLength (front.flatMap Piece.text)) back'
  Place i j := i = j ∧ j ≤ byteLength (front.flatMap Piece.text)
  Floor i j := i = j
  leftBase := []
  rightBase := []
  renumber := id
  key := id
  limit := limit
  dialect := rfl
  longer := by rw [length_ahead, length_ahead]; exact longer
  ends none none' := by
    rw [stop_sourceOfPieces, stop_sourceOfPieces, ahead_append, ahead_append, Nat.zero_add, none,
      none']
    refine ⟨rfl, ?_⟩
    cases last : (ahead 0 front ++ []).getLast? with
    | none => exact Nat.zero_le _
    | some t =>
      rw [List.append_nil] at last
      have inside := (List.mem_filter.mp (List.mem_of_getLast? last)).1
      have places := filled.places inside
      rw [Nat.zero_add] at places
      exact places.2.2.2
  floor_of_place same := same.1
  cut := by
    rintro i _ i' _ cs ⟨rfl, inside⟩ ⟨rfl, inside'⟩ found
    rw [text_sourceOfPieces_append] at found
    refine ⟨cs, ?_, rfl, Iff.rfl⟩
    rw [text_sourceOfPieces_append]
    exact slice?_in_front (Nat.max_le.mpr ⟨inside', inside⟩) cs found
  breaks := by
    rintro i _ i' _ b ⟨rfl, inside⟩ ⟨rfl, inside'⟩ found
    have same : (sourceOfPieces d (front ++ back)).dialect =
        (sourceOfPieces d (front ++ back')).dialect := rfl
    refine Source.breaksBetween_of_cut same (fun gap cut => ?_) found
    rw [text_sourceOfPieces_append] at cut ⊢
    exact slice?_in_front inside' gap cut
  doc := by
    rintro c e i _ floor ⟨rfl, inside⟩
    rw [docAt_in_front filled' inside, docAt_in_front filled'' inside, floor]
  renumbered _ _ := rfl
  unequal := by
    intro t first same
    apply unequal
    rw [← map_token_ahead (byteLength (front.flatMap Piece.text)), List.head?_map,
      Option.mem_def.mp first, Option.map_some, same]

theorem at_start_inFront (filled : Filled front) (filled' : Filled back) (filled'' : Filled back')
    (longer : (tokens back).length ≤ (tokens back').length)
    (unequal : (tokens back').head? ≠ some (.symbol .equals)) (rests : Rests front) :
    (Window.inFront d front limit filled filled' filled'' longer unequal).At
      ((ahead 0 front).map fun t => (t, t)) (start (locate 0 (front ++ back)))
      (start (locate 0 (front ++ back'))) where
  left := by
    rw [List.map_map]
    change ahead 0 (front ++ back) = (ahead 0 front).map id ++ _
    rw [ahead_append, Nat.zero_add, List.map_id]
    rfl
  right := by
    rw [List.map_map]
    change ahead 0 (front ++ back') = (ahead 0 front).map id ++ _
    rw [ahead_append, Nat.zero_add, List.map_id]
    rfl
  alike := by
    intro u member
    obtain ⟨t, known, rfl⟩ := List.mem_map.mp member
    obtain ⟨_, some, stop, last⟩ := filled.places (List.mem_filter.mp known).1
    rw [Nat.zero_add] at last
    exact ⟨rfl, ⟨rfl, Nat.le_trans (Nat.le_of_lt some) last⟩, ⟨rfl, last⟩, stop, stop⟩
  ordered := by
    refine List.pairwise_map.mpr ((inOrder_ahead 0 front).imp fun before => ⟨before, before⟩)
  calm := by
    refine .inr fun u last => ?_
    rw [List.getLast?_map, Option.mem_def, Option.map_eq_some_iff] at last
    obtain ⟨t, last, rfl⟩ := last
    apply rests t.token
    rw [← map_token_ahead 0, List.getLast?_map, last]
    rfl
  lastStop := rfl
  docFloor := rfl
  classes := ⟨[], [], rfl, rfl, rfl⟩

/-- Two sources that end alike. The classes in front of the common end are numbered as they come. -/
def Window.behind (d : Dialect) (front front' : List Piece) {pieces : List Piece}
    (leftBase rightBase : List ClassDecl) (renumber : Nat → Nat) (limit : Nat)
    (filled : Filled front) (filled' : Filled front') (some : tokens pieces ≠ [])
    (renumbered : ∀ {i : Nat}, leftBase.length ≤ i → i < limit →
      renumber i + leftBase.length = i + rightBase.length) : Window where
  left := sourceOfPieces d (front ++ pieces)
  right := sourceOfPieces d (front' ++ pieces)
  leftTail := []
  rightTail := []
  Place i j := ∃ k, i = byteLength (front.flatMap Piece.text) + k ∧
    j = byteLength (front'.flatMap Piece.text) + k
  Floor i j := (∀ t ∈ notes 0 front, t.start < i) ∧ (∀ t ∈ notes 0 front', t.start < j) ∧
    ∀ t ∈ notes 0 pieces, i ≤ byteLength (front.flatMap Piece.text) + t.start ↔
      j ≤ byteLength (front'.flatMap Piece.text) + t.start
  leftBase := leftBase
  rightBase := rightBase
  renumber := renumber
  key := id
  limit := limit
  dialect := rfl
  longer := Nat.le_refl _
  ends _ _ := by
    have ends : ∀ front : List Piece, ∃ t, (ahead 0 pieces).getLast? = Option.some t ∧
        (sourceOfPieces d (front ++ pieces)).stop =
          byteLength (front.flatMap Piece.text) + t.stop := by
      intro front
      have nonempty : ahead 0 pieces ≠ [] := by
        rw [← List.length_pos_iff, length_ahead, List.length_pos_iff]
        exact some
      refine ⟨_, List.getLast?_eq_some_getLast nonempty, ?_⟩
      rw [stop_sourceOfPieces, ahead_append, Nat.zero_add, ahead_behind (byteLength _),
        List.getLast?_append, List.getLast?_map, List.getLast?_eq_some_getLast nonempty]
      rfl
    obtain ⟨t, last, left⟩ := ends front
    obtain ⟨t', last', right⟩ := ends front'
    cases last.symm.trans last'
    exact ⟨t.stop, left, right⟩
  floor_of_place := by
    rintro _ _ ⟨k, rfl, rfl⟩
    have behind : ∀ {front : List Piece}, Filled front → ∀ t ∈ notes 0 front,
        t.start < byteLength (front.flatMap Piece.text) + k := by
      intro front filled t member
      obtain ⟨_, some, last⟩ := filled.notes_places member
      omega
    refine ⟨behind filled, behind filled', fun t _ => ?_⟩
    rw [Nat.add_le_add_iff_left, Nat.add_le_add_iff_left]
  cut := by
    rintro _ _ _ _ cs ⟨k, rfl, rfl⟩ ⟨l, rfl, rfl⟩ found
    rw [text_sourceOfPieces_append, Nat.add_max_add_left, slice?_behind] at found
    refine ⟨cs, ?_, rfl, Iff.rfl⟩
    rw [text_sourceOfPieces_append, Nat.add_max_add_left, slice?_behind, found]
  breaks := by
    rintro _ _ _ _ b ⟨k, rfl, rfl⟩ ⟨l, rfl, rfl⟩ found
    rw [Source.breaksBetween, text_sourceOfPieces_append, Nat.add_min_add_left, slice?_behind]
      at found ⊢
    exact found
  doc := by
    rintro c e _ _ ⟨left, right, same⟩ ⟨k, rfl, rfl⟩
    rw [docAt_behind left, docAt_behind right]
    refine congrArg (fun found => (Option.map _ found).map _) (List.find?_congr fun t member => ?_)
    rw [decide_eq_decide.mpr (same t (List.mem_reverse.mp member))]
  renumbered := renumbered
  unequal := by simp

theorem at_behind {leftBase rightBase : List ClassDecl} {renumber : Nat → Nat}
    (filled : Filled front) (filled' : Filled front') (filled'' : Filled pieces)
    (some : tokens pieces ≠ [])
    (renumbered : ∀ {i : Nat}, leftBase.length ≤ i → i < limit →
      renumber i + leftBase.length = i + rightBase.length)
    (left : c.rest = ahead (byteLength (front.flatMap Piece.text)) pieces)
    (right : e.rest = ahead (byteLength (front'.flatMap Piece.text)) pieces)
    (lastStop : (Window.behind d front front' leftBase rightBase renumber limit filled filled' some
      renumbered).Floor c.lastStop e.lastStop)
    (docFloor : (Window.behind d front front' leftBase rightBase renumber limit filled filled' some
      renumbered).Floor c.docFloor e.docFloor)
    (classes : c.classes = leftBase ∧ e.classes = rightBase) :
    (Window.behind d front front' leftBase rightBase renumber limit filled filled' some
      renumbered).At
      ((ahead 0 pieces).map fun t =>
        (t.behind (byteLength (front.flatMap Piece.text)),
          t.behind (byteLength (front'.flatMap Piece.text)))) c e where
  left := by
    rw [left, ahead_behind, List.map_map]
    exact (List.append_nil _).symm
  right := by
    rw [right, ahead_behind, List.map_map]
    exact (List.append_nil _).symm
  alike := by
    intro u member
    obtain ⟨t, known, rfl⟩ := List.mem_map.mp member
    obtain ⟨_, _, length, _⟩ := filled''.places (List.mem_filter.mp known).1
    refine ⟨rfl, ⟨t.start, rfl, rfl⟩, ⟨t.stop, rfl, rfl⟩, ?_, ?_⟩
    · simp only [Located.behind]
      omega
    · simp only [Located.behind]
      omega
  ordered := by
    refine List.pairwise_map.mpr ((inOrder_ahead 0 pieces).imp fun before => ?_)
    exact ⟨Nat.add_le_add_left before _, Nat.add_le_add_left before _⟩
  calm := .inl ⟨rfl, rfl⟩
  lastStop := lastStop
  docFloor := docFloor
  classes := ⟨[], [], by rw [classes.1, List.append_nil]; rfl,
    by rw [classes.2, List.append_nil]; rfl, rfl⟩

/-- The parse stands behind the pieces, and documentation among them is not looked for any more. -/
structure Clears (front back : List Piece) (c : Cursor) : Prop where
  rest : c.rest = ahead (byteLength (front.flatMap Piece.text)) back
  lastStop : c.lastStop ≤ byteLength (front.flatMap Piece.text)
  docFloor : c.docFloor = c.lastStop
  notes : ∀ t ∈ notes 0 front, t.start < c.lastStop

/-- What is read behind two beginnings of a source is the same. -/
theorem Clears.follow {α : Type} {p : Parser α} {R : α → α → Prop} {a : α} {c' : Cursor}
    (left : Clears front pieces c) (right : Clears front' pieces e) (filled : Filled front)
    (filled' : Filled front') (filled'' : Filled pieces) (some : tokens pieces ≠ [])
    (length : c.classes.length = e.classes.length)
    (steady : ∀ W : Window, W.leftBase = c.classes → W.rightBase = e.classes → W.renumber = id →
      W.key = id → W.Steady 1 p p R)
    (run : p.on (sourceOfPieces d (front ++ pieces)) c = .ok (a, c')) :
    ∃ b e', p.on (sourceOfPieces d (front' ++ pieces)) e = .ok (b, e') ∧ R a b ∧
      (c'.rest = [] → e'.rest = []) ∧
      ∃ cs ds, c'.classes = c.classes ++ cs ∧ e'.classes = e.classes ++ ds ∧
        cs.map (ClassDecl.plain id id) = ds.map (ClassDecl.plain id id) := by
  have renumbered : ∀ {i : Nat}, c.classes.length ≤ i → i < c'.classes.length →
      id i + c.classes.length = i + e.classes.length := fun _ _ => by rw [length, id]
  let W := Window.behind d front front' c.classes e.classes id c'.classes.length filled filled' some
    renumbered
  have floor : W.Floor c.lastStop e.lastStop := by
    refine ⟨left.notes, right.notes, fun t _ => iff_of_true ?_ ?_⟩
    · exact Nat.le_trans left.lastStop (Nat.le_add_right _ _)
    · exact Nat.le_trans right.lastStop (Nat.le_add_right _ _)
  have here := at_behind (d := d) filled filled' filled'' some renumbered left.rest right.rest floor
    (by rw [left.docFloor, right.docFloor]; exact floor) ⟨rfl, rfl⟩
  obtain ⟨b, e', us, run', same, there⟩ :=
    (steady W rfl rfl rfl rfl).follow here run ⟨.inl ⟨rfl, rfl⟩, Nat.le_refl _⟩
  refine ⟨b, e', run', same, fun ended => ?_, there.classes⟩
  have behind : c'.rest = us.map (·.1) ++ [] := there.left
  have behind' : e'.rest = us.map (·.2) ++ [] := there.right
  rw [ended, List.append_nil, eq_comm, List.map_eq_nil_iff] at behind
  rw [behind', behind]
  rfl

end Sides

end Parser

end CreatorSynth
