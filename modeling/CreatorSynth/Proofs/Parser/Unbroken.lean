import CreatorSynth.Proofs.Parser.Safe
import CreatorSynth.Proofs.Parser.Scans
import CreatorSynth.Proofs.Parser.Tame

/-! Stretches of a source that are kept as text and have no line break outside brackets. Groovy
passes over them as Java does. -/
namespace CreatorSynth
open Text

/-- How open angles are counted in a stretch. -/
abbrev Angles := (previous : Option Token) → (angles : Nat) → Token → Nat

/-- Outside the initializer of a field no angle opens type arguments. -/
def noAngles : Angles := fun _ _ _ => 0

namespace Piece

/-- No line ends between two tokens where neither a bracket nor an angle is open. -/
def unbroken (count : Angles) : (depth angles : Nat) → (previous : Option Token) →
    (feed : Bool) → List Piece → Bool
  | _, _, _, _, [] => true
  | depth, angles, previous, feed, gap g :: pieces =>
      unbroken count depth angles previous (feed || g.contains '\n') pieces
  | depth, angles, previous, feed, token t :: pieces =>
      if t.isDoc then
        unbroken count depth angles previous (feed || t.text.toList.contains '\n') pieces
      else
        !(feed && previous.isSome && depth == 0 && angles == 0) &&
          unbroken count (t.nest depth) (count previous angles t) (some t) false pieces

end Piece

/-- No line ends between two tokens of a text outside brackets. -/
def Unbroken (count : Angles) (text : String) : Prop :=
  Piece.unbroken count 0 0 none false (rawPieces text) = true

instance (count : Angles) (text : String) : Decidable (Unbroken count text) :=
  inferInstanceAs (Decidable (_ = true))

namespace Source

/-- No line ends in front of a token of a stretch, behind another one, outside brackets. -/
def Calm (src : Source) (count : Angles) : (depth angles : Nat) → (previous : Option Token) →
    (passed : Option Nat) → List Located → Prop
  | _, _, _, _, [] => True
  | depth, angles, previous, passed, t :: ts =>
      (depth = 0 → angles = 0 → src.inGroovy.breaksAfter passed t.start = .ok false) ∧
        Calm src count (t.token.nest depth) (count previous angles t.token) (some t.token)
          (some t.stop) ts

variable {src : Source} {depth angles : Nat} {previous : Option Token} {passed : Option Nat}
  {t : Located} {ts : List Located}

theorem passInitializer_cons
    (calm : depth = 0 → angles = 0 → src.breaksAfter passed t.start = .ok false) :
    src.passInitializer depth angles previous passed (t :: ts) =
      if depth = 0 ∧ angles = 0 ∧ (t.token = .symbol .comma ∨ t.token = .symbol .semicolon ∨
          t.token = .symbol .rbrace) then .ok (passed, t :: ts)
      else src.passInitializer (t.token.nest depth) (t.token.nestAngles previous angles)
        (some t.token) (some t.stop) ts := by
  rw [passInitializer]
  by_cases shallow : depth = 0 ∧ angles = 0
  · obtain ⟨rfl, rfl⟩ := shallow
    rw [calm rfl rfl]
    by_cases ended : t.token = .symbol .comma ∨ t.token = .symbol .semicolon ∨
        t.token = .symbol .rbrace
    · simp [ended, pure, Except.pure]
    · simp [ended, bind, Except.bind]
  · rw [if_neg shallow, if_neg fun ended => shallow ⟨ended.1, ended.2.1⟩]

/-- The stretch that is passed over in Java is passed over in Groovy if no line ends in it. -/
theorem passExpression_groovy (java : src.dialect = .java) {found : Passed}
    (run : src.passExpression depth passed ts = .ok found) :
    ∃ taken, ts = taken ++ found.2 ∧ found.1 = stopOver passed taken ∧
      (src.Calm noAngles depth 0 previous passed taken →
        src.inGroovy.passExpression depth passed ts = .ok found) := by
  induction ts generalizing depth previous passed with
  | nil => cases run
  | cons t ts ih =>
    rw [passExpression_java java] at run
    split at run
    · rename_i ended
      cases run
      refine ⟨[], rfl, rfl, fun _ => ?_⟩
      obtain ⟨rfl, ends⟩ := Ends.expression_eq_true ended
      rw [passExpression, if_pos rfl, if_pos ends]
      rfl
    · rename_i further
      obtain ⟨taken, rfl, stop, same⟩ := @ih _ (some t.token) _ run
      refine ⟨t :: taken, rfl, by rw [stopOver_cons, stop], fun calm => ?_⟩
      rw [passExpression_cons fun shallow => calm.1 shallow rfl, if_neg further]
      exact same calm.2

theorem passInitializer_groovy (java : src.dialect = .java) {found : Passed}
    (run : src.passInitializer depth angles previous passed ts = .ok found) :
    ∃ taken, ts = taken ++ found.2 ∧ found.1 = stopOver passed taken ∧
      (src.Calm Token.nestAngles depth angles previous passed taken →
        src.inGroovy.passInitializer depth angles previous passed ts = .ok found) := by
  induction ts generalizing depth angles previous passed with
  | nil => cases run
  | cons t ts ih =>
    rw [passInitializer_cons fun _ _ => breaksAfter_java java _ _] at run
    split at run
    · rename_i ended
      cases run
      refine ⟨[], rfl, rfl, fun _ => ?_⟩
      rw [passInitializer, if_pos ⟨ended.1, ended.2.1⟩, if_pos ended.2.2]
      rfl
    · rename_i further
      obtain ⟨taken, rfl, stop, same⟩ := ih run
      refine ⟨t :: taken, rfl, by rw [stopOver_cons, stop], fun calm => ?_⟩
      rw [passInitializer_cons calm.1, if_neg further]
      exact same calm.2

/-- A statement may take its semicolon too. -/
theorem passStatement_groovy (java : src.dialect = .java) {found : Option Nat × Passed}
    (run : src.passStatement depth passed ts = .ok found) :
    ∃ taken rest, ts = taken ++ rest ∧ found.1 = stopOver passed taken ∧
      (src.Calm noAngles depth 0 previous passed taken →
        src.inGroovy.passStatement depth passed ts = .ok found) := by
  induction ts generalizing depth previous passed with
  | nil => cases run
  | cons t ts ih =>
    rw [passStatement_java java] at run
    split at run
    · rename_i ended
      split at run
      · rename_i shallow
        subst shallow
        split at run
        · rename_i semicolon
          cases run
          refine ⟨[], t :: ts, rfl, rfl, fun _ => ?_⟩
          rw [passStatement, if_pos rfl, if_pos semicolon]
          rfl
        · rename_i other
          cases run
          refine ⟨[], t :: ts, rfl, rfl, fun _ => ?_⟩
          obtain ⟨_, semicolon | brace⟩ | ⟨nested, _⟩ := Ends.statement_eq_true ended
          · exact absurd semicolon other
          · rw [passStatement, if_pos rfl, if_neg other, if_pos brace]
            rfl
          · cases nested
      · rename_i deep
        cases run
        refine ⟨[t], ts, rfl, rfl, fun calm => ?_⟩
        rw [passStatement_cons fun shallow => absurd shallow deep, if_pos ended, if_neg deep]
    · rename_i further
      obtain ⟨taken, rest, rfl, stop, same⟩ := @ih _ (some t.token) _ run
      refine ⟨t :: taken, rest, rfl, by rw [stopOver_cons, stop], fun calm => ?_⟩
      rw [passStatement_cons fun shallow => calm.1 shallow rfl, if_neg further]
      exact same calm.2

/-- The text between the last token passed over and the place where a stretch goes on. -/
structure Between (before : List Char) (passed : Option Nat) (previous : Option Token)
    (feed : Bool) : Prop where
  known : ∀ stop, passed = some stop → previous.isSome = true ∧ ∃ front between,
    before = front ++ between ∧ stop = byteLength front ∧
      (between.contains '\n' = true → feed = true)

theorem Between.skip {before cs : List Char} {feed : Bool}
    (gap : Between before passed previous feed) :
    Between (before ++ cs) passed previous (feed || cs.contains '\n') := by
  refine ⟨fun stop same => ?_⟩
  obtain ⟨some, front, between, rfl, ends, fed⟩ := gap.known stop same
  refine ⟨some, front, between ++ cs, List.append_assoc _ _ _, ends, fun found => ?_⟩
  rw [List.contains_append, Bool.or_eq_true] at found
  rw [Bool.or_eq_true]
  exact found.imp_left fed

theorem calm_of_unbroken {count : Angles} {feed : Bool} {pieces : List Piece}
    {before after : List Char} (whole : src.text = before ++ pieces.flatMap Piece.text ++ after)
    (gap : Between before passed previous feed)
    (unbroken : Piece.unbroken count depth angles previous feed pieces = true) :
    src.Calm count depth angles previous passed (Piece.ahead (byteLength before) pieces) := by
  induction pieces generalizing before depth angles previous passed feed with
  | nil => trivial
  | cons piece pieces ih =>
    have further : src.text = before ++ piece.text ++ pieces.flatMap Piece.text ++ after := by
      rw [whole, List.flatMap_cons, ← List.append_assoc]
    have skip (same : Piece.ahead (byteLength before) (piece :: pieces) =
        Piece.ahead (byteLength before + byteLength piece.text) pieces)
        (rest : Piece.unbroken count depth angles previous
          (feed || piece.text.contains '\n') pieces = true) :
        src.Calm count depth angles previous passed
          (Piece.ahead (byteLength before) (piece :: pieces)) := by
      rw [same, ← byteLength_append]
      exact ih further gap.skip rest
    cases piece with
    | gap g => exact skip rfl unbroken
    | token t =>
      cases doc : t.isDoc with
      | true =>
        rw [Piece.unbroken, if_pos doc] at unbroken
        exact skip (by simp [Piece.ahead, Piece.locate, doc, Piece.text]) unbroken
      | false =>
        rw [Piece.unbroken, doc, if_neg Bool.false_ne_true, Bool.and_eq_true] at unbroken
        rw [Piece.ahead_token _ _ doc, ← byteLength_append]
        refine ⟨fun shallow closed => ?_, ih further ⟨fun stop same => ?_⟩ unbroken.2⟩
        · cases passed with
          | none => rfl
          | some stop =>
            obtain ⟨some, front, between, rfl, rfl, fed⟩ := gap.known stop rfl
            have text : src.text = front ++ between ++
                ((Piece.token t :: pieces).flatMap Piece.text ++ after) := by
              rw [whole, List.append_assoc]
            have order : min (byteLength front) (byteLength (front ++ between)) =
                byteLength front := by
              rw [byteLength_append]
              omega
            have dry : between.contains '\n' = false := by
              cases found : between.contains '\n' with
              | false => rfl
              | true => simp [fed found, some, shallow, closed] at unbroken
            rw [breaksAfter, breaksBetween]
            simp only [inGroovy, order]
            rw [byteLength_append, text, slice?_append]
            exact congrArg Except.ok dry
        · cases same
          exact ⟨rfl, before ++ t.text.toList, [], (List.append_nil _).symm, rfl, by simp⟩

/-- A source in Java and its tokens. -/
class Lexed (src : Source) (tokens : List Located) : Prop where
  java : src.dialect = .java
  pieces : ∃ pieces, Piece.AllStand pieces [] ∧ src.text = pieces.flatMap Piece.text ∧
    tokens = Piece.ahead 0 pieces

/-- A stretch of a source is calm if what is cut out there is unbroken. -/
theorem calm_of_cut {tokens taken rest : List Located} [lexed : src.Lexed tokens] {count : Angles}
    {c mid c' : Cursor} {start : Nat} {found : String} (inside : c.rest <:+ tokens)
    (begins : start = (c.rest.head?.map (·.start)).getD src.stop) (split : c.rest = taken ++ rest)
    (cutOut : (Parser.cut start ((stopOver none taken).getD start)).on src mid = .ok (found, c'))
    (unbroken : Unbroken count found) : src.Calm count 0 0 none none taken := by
  obtain ⟨pieces, stand, whole, rfl⟩ := lexed.pieces
  cases taken with
  | nil => trivial
  | cons t taken =>
    rw [split, List.cons_append] at inside begins
    obtain ⟨front, used, more, rfl, first, located, head, last⟩ := Piece.exists_stretch inside
    rw [Nat.zero_add] at first
    have some : used ≠ [] := by
      rintro rfl
      cases located
    rw [List.flatMap_append, List.flatMap_append] at whole
    have stands := (Piece.allStand_append.mp (Piece.allStand_append.mp stand).1).2
    have alone : Piece.AllStand used [] :=
      stands.alone fun p same => (last p same).imp fun _ both => both.1
    have cutHere := Parser.on_cut_of_text (c := mid) whole
    rw [trim_self (stands.tipped head last), byteLength_append] at cutHere
    rw [← located, stopOver_ahead some last, begins] at cutOut
    simp only [List.head?_cons, Option.map_some, Option.getD_some, first] at cutOut
    rw [cutHere] at cutOut
    cases cutOut
    rw [Unbroken, rawPieces_of_allStand alone] at unbroken
    rw [← located, first]
    exact calm_of_unbroken whole ⟨by simp⟩ unbroken

end Source

end CreatorSynth
