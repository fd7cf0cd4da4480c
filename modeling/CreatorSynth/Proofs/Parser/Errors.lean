import CreatorSynth.Proofs.Parser.Places
import CreatorSynth.Proofs.Parser.Safe

/-! Where errors point. A text is refused at a place between two of its characters: where no token
begins, or at a token of those that it is cut into. No cut on the way misses the characters. -/
namespace CreatorSynth
open Text Located

theorem eq_error_of_match {α ε : Type} {r : Except ε α} {e : ε}
    (found : (match r with | .error e => some e | .ok _ => none) = some e) : r = .error e := by
  cases r with
  | error e' =>
    cases found
    rfl
  | ok a => cases found

/-- The text is cut into pieces up to an offset, and no piece begins there. -/
def Piece.StuckAt (cs : List Char) (pos : Nat) : Prop :=
  ∃ pieces rest, cs = pieces.flatMap text ++ rest ∧ AllStand pieces rest ∧ rest ≠ [] ∧
    next? rest = none ∧ byteLength (pieces.flatMap text) = pos

namespace Piece

theorem stuck_of_allWithin {bound before pos : Nat} {cs : List Char} (enough : cs.length ≤ bound)
    (failed : allWithin bound before cs = .error pos) :
    ∃ inner, pos = before + inner ∧ StuckAt cs inner := by
  induction bound generalizing before cs with
  | zero =>
    rw [List.eq_nil_of_length_eq_zero (Nat.le_zero.mp enough)] at failed
    cases failed
  | succ bound ih =>
    cases cs with
    | nil => cases failed
    | cons c cs =>
      cases found : next? (c :: cs) with
      | none =>
        simp only [allWithin, found] at failed
        cases failed
        exact ⟨0, rfl, [], c :: cs, rfl, trivial, List.cons_ne_nil _ _, found, rfl⟩
      | some cut =>
        obtain ⟨piece, rest⟩ := cut
        have split := text_append_of_next? found
        have shorter : rest.length ≤ bound := by
          have length := congrArg List.length split
          have positive := List.length_pos_iff.mpr (text_ne_nil_of_next? found)
          simp only [List.length_append, List.length_cons] at length enough
          omega
        simp only [allWithin, found] at failed
        cases more : allWithin bound (before + byteLength piece.text) rest with
        | ok others =>
          rw [more] at failed
          cases failed
        | error pos' =>
          rw [more] at failed
          cases failed
          obtain ⟨inner, same, pieces, left, whole, stand, some, stuck, length⟩ := ih shorter more
          refine ⟨byteLength piece.text + inner, by omega, piece :: pieces, left, ?_, ⟨?_, stand⟩,
            some, stuck, ?_⟩
          · rw [List.flatMap_cons, List.append_assoc, ← whole, split]
          · rw [Stands, ← whole, split, found]
          · rw [List.flatMap_cons, byteLength_append, length]

theorem StuckAt.boundary {cs : List Char} {pos : Nat} (stuck : StuckAt cs pos) :
    Boundary cs pos := by
  obtain ⟨pieces, rest, rfl, _, _, _, rfl⟩ := stuck
  exact boundary_append _ _

end Piece

theorem tokenize_eq_error {text : String} {e : ParseError} (failed : tokenize text = .error e) :
    ∃ pos, e = .unrecognized pos ∧ Piece.StuckAt text.toList pos := by
  unfold tokenize at failed
  split at failed
  · cases failed
  · rename_i pos stuck
    cases failed
    obtain ⟨inner, same, stuck⟩ := Piece.stuck_of_allWithin (Nat.le_refl _) stuck
    rw [Nat.zero_add] at same
    exact ⟨pos, rfl, same ▸ stuck⟩

/-- Where the error of a text points. -/
structure ParseError.PlacedIn (text : String) (e : ParseError) : Prop where
  sound : e ≠ .fault
  inside : e.pos ≤ text.utf8ByteSize
  between : Boundary text.toList e.pos
  place : Piece.StuckAt text.toList e.pos ∨
    ∃ located, tokenize text = .ok located ∧ e.AtToken (codeTokens located)

theorem ParseError.placedIn_of_tokenize {text : String} {e : ParseError}
    (failed : tokenize text = .error e) : e.PlacedIn text := by
  obtain ⟨pos, rfl, stuck⟩ := tokenize_eq_error failed
  have inside := stuck.boundary.le
  rw [byteLength_toList] at inside
  exact ⟨nofun, inside, stuck.boundary, .inl stuck⟩

theorem Parser.holds_of_tokenize {text : String} {dialect : Dialect} {located : List Located}
    (tokens : tokenize text = .ok located) :
    (sourceOf text dialect located).Holds (codeTokens located) := by
  obtain ⟨order, stand⟩ := tokenize_places tokens
  exact ⟨order.filter _, fun t member => stand t (List.mem_filter.mp member).1, rfl⟩

theorem ParseError.AtToken.placedIn {text : String} {located : List Located} {e : ParseError}
    (tokens : tokenize text = .ok located) (placed : e.AtToken (codeTokens located)) :
    e.PlacedIn text := by
  obtain ⟨_, stand⟩ := tokenize_places tokens
  have each : ∀ t ∈ codeTokens located, t.StandsIn text.toList := fun t member =>
    stand t (List.mem_filter.mp member).1
  have between : Boundary text.toList e.pos := by
    rcases placed.pos with zero | ⟨t, member, start⟩ | last
    · exact zero ▸ boundary_zero _
    · exact start ▸ (each t member).boundary_start
    · obtain ⟨t, ends, stop⟩ := Option.map_eq_some_iff.mp last
      exact stop ▸ (each t (List.mem_of_getLast? ends)).boundary_stop
  have inside := between.le
  rw [byteLength_toList] at inside
  exact ⟨placed.sound, inside, between, .inr ⟨located, tokens, placed⟩⟩

namespace Parser

theorem run_eq_error {α : Type} {p : Parser α} {text : String} {dialect : Dialect}
    {e : ParseError} (failed : p.run text dialect = .error e) : tokenize text = .error e ∨
      ∃ located, tokenize text = .ok located ∧
        p.on (sourceOf text dialect located) (start located) = .error e := by
  unfold run at failed
  cases tokens : tokenize text with
  | error e' =>
    rw [tokens] at failed
    cases failed
    exact .inl rfl
  | ok located =>
    rw [tokens] at failed
    exact .inr ⟨located, rfl, failed⟩

/-- What fails at tokens only fails in place on every text. -/
theorem placedIn_of_run {α : Type} {p : Parser α} {text : String} {dialect : Dialect}
    {e : ParseError}
    (safe : ∀ {src : Source} {tokens : List Located}, src.Holds tokens → Safe src tokens p)
    (failed : p.run text dialect = .error e) : e.PlacedIn text := by
  rcases run_eq_error failed with failed | ⟨located, tokens, failed⟩
  · exact ParseError.placedIn_of_tokenize failed
  · have atToken := (safe (holds_of_tokenize tokens)).atToken List.suffix_rfl failed
    exact atToken.placedIn tokens

end Parser

theorem parseUnit_error {text : String} {dialect : Dialect} {e : ParseError}
    (failed : parseUnit text dialect = .error e) : e.PlacedIn text := by
  unfold parseUnit at failed
  cases run : Parser.unit.run text dialect with
  | ok found =>
    rw [run] at failed
    cases failed
  | error e' =>
    rw [run] at failed
    cases failed
    exact Parser.placedIn_of_run (fun _ => inferInstance) run

theorem parseMember_error {text className : String} {dialect : Dialect} {e : ParseError}
    (failed : parseMember text className dialect = .error e) : e.PlacedIn text := by
  unfold parseMember at failed
  cases run : (Parser.member className).run text dialect with
  | error e' =>
    rw [run] at failed
    cases failed
    exact Parser.placedIn_of_run (fun _ => inferInstance) run
  | ok found =>
    obtain ⟨located, tokens, read⟩ := Parser.run_eq_ok.mp run
    have inside : found.2.rest <:+ codeTokens located :=
      Parser.Onward.suffix List.suffix_rfl read
    rw [run] at failed
    simp only [bind, Except.bind] at failed
    split at failed
    · rename_i t rest left
      cases failed
      have member : t ∈ codeTokens located := inside.mem (by rw [left]; exact List.mem_cons_self)
      have placed : (ParseError.unexpected t.start .endOfMember (some t.token)).AtToken
          (codeTokens located) := ⟨nofun, .inr (.inl ⟨t, member, rfl⟩)⟩
      exact placed.placedIn tokens
    · cases failed
    · cases failed
      have placed : ParseError.notOneMember.AtToken (codeTokens located) := ⟨nofun, .inl rfl⟩
      exact placed.placedIn tokens

namespace Parser

/-- The cuts that a parser makes are checked. One that is not between characters is the fault, and
what fails on the way fails as a whole. In front of the closing parenthesis of a group stands the
opening one, so that the text between them is cut forwards. -/
structure CutsChecked : Prop where
  texts : ∀ {src : Source} {c : Cursor} {start stop : Nat},
    (cut start stop).on src c = .error .fault ↔
      ¬ (Boundary src.text start ∧ Boundary src.text (max stop start))
  lines : ∀ {src : Source} {start stop : Nat}, src.breaksBetween stop start = .error .fault ↔
    src.dialect = .groovy ∧ ¬ (Boundary src.text (min stop start) ∧ Boundary src.text start)
  steps : ∀ {α β : Type} {p : Parser α} {f : α → Parser β} {src : Source} {c : Cursor}
    {e : ParseError}, (p >>= f).on src c = .error e ↔
      p.on src c = .error e ∨ ∃ a mid, p.on src c = .ok (a, mid) ∧ (f a).on src mid = .error e
  parens : ∀ {src : Source} {tokens : List Located} {c c' : Cursor} {span : Span},
    src.Holds tokens → c.rest <:+ tokens →
      (group .lparen .rparen).on src c = .ok (span, c') → span.start + 1 ≤ span.stop - 1

theorem cutsChecked : CutsChecked where
  texts := on_cut_eq_fault_iff
  lines := breaksBetween_eq_fault_iff
  steps := on_bind_eq_error
  parens := by
    intro src tokens c c' span holds inside run
    have ordered := (group_parens inside run).1
    omega

end Parser

/-- Whatever the text, the class and the dialect are, errors point at a place of the text, and no
cut of it fails. -/
theorem errors_in_place :
    (∀ text e, tokenize text = .error e → e.PlacedIn text) ∧
    (∀ text dialect e, parseUnit text dialect = .error e → e.PlacedIn text) ∧
    (∀ text className dialect e, parseMember text className dialect = .error e →
      e.PlacedIn text) ∧
    Parser.CutsChecked :=
  ⟨fun _ _ => ParseError.placedIn_of_tokenize, fun _ _ _ => parseUnit_error,
    fun _ _ _ _ => parseMember_error, Parser.cutsChecked⟩

/-- A field without its end. The last character takes two bytes. -/
def truncated : String :=
  "class A \x7b int é"

theorem truncated_in_place :
    parseUnit truncated .java = .error (.unexpectedEnd 16) ∧
      (ParseError.unexpectedEnd 16).PlacedIn truncated := by
  have failed : parseUnit truncated .java = .error (.unexpectedEnd 16) :=
    eq_error_of_match (by decide +kernel)
  exact ⟨failed, errors_in_place.2.1 _ _ _ failed⟩

end CreatorSynth
