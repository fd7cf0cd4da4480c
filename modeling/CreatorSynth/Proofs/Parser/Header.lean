import CreatorSynth.Proofs.Parser.Places
import CreatorSynth.Proofs.Parser.Sides

/-! Package declarations and imports. The tokens they take end with one that does not decide about
the next, and documentation read so far belongs to them, so what follows is read by itself. -/
namespace CreatorSynth
open Text CreatorSynth.Parser

section Ends

theorem Token.calm_of_word {t : Token} {name : String} (word : t.word? = some name) : t.Calm := by
  unfold Token.word? at word
  split at word
  · simp [Token.Calm]
  · simp [Token.Calm]
  · cases word

theorem Dotted.exists_last {ts : List Token} {names : List String} (dotted : Dotted ts names) :
    ∃ front last, ts = front ++ [last] ∧ last.Calm := by
  induction dotted with
  | one word => exact ⟨[], _, rfl, Token.calm_of_word word⟩
  | cons word _ ih =>
    obtain ⟨front, last, rfl, calm⟩ := ih
    exact ⟨_ :: .symbol .dot :: front, last, rfl, calm⟩

theorem Import.Spelled.exists_last {decl : Import} {ts : List Token} (spelled : decl.Spelled ts) :
    ∃ front last, ts = front ++ [last] ∧ last.Calm := by
  obtain ⟨⟨path, ⟨names, dotted, _⟩, rfl⟩, _⟩ := spelled
  generalize (if decl.isStatic then [Token.name "static"] else []) = static
  cases decl.onDemand with
  | false =>
    obtain ⟨front, last, rfl, calm⟩ := dotted.exists_last
    exact ⟨static ++ front, last, by simp, calm⟩
  | true => exact ⟨static ++ path ++ [.symbol .dot], .operator '*', by simp, by simp [Token.Calm]⟩

/-- A declaration ends with its semicolon, or with what is declared. -/
theorem Announces.exists_last {word : Keyword} {declared : List Token → Prop}
    {behind tail : List Located} (announces : Announces word declared behind tail)
    (ends : ∀ ts, declared ts → ∃ front last, ts = front ++ [last] ∧ last.Calm) :
    ∃ front last, tail = front ++ [last] ∧ last.token.Calm := by
  obtain ⟨keyword, named, semicolon⟩ := announces
  rename_i t path semi
  cases semicolon with
  | @semicolon last token =>
    exact ⟨t :: path, last, rfl, by rw [token]; simp [Token.Calm]⟩
  | omitted _ =>
    obtain ⟨front, last, split, calm⟩ := ends _ named
    obtain ⟨front', back, rfl, rfl, single⟩ := List.map_eq_append_iff.mp split
    obtain ⟨last', rfl, rfl⟩ := List.map_eq_singleton_iff.mp single
    exact ⟨t :: front', last', by simp, calm⟩

end Ends

namespace Parser

variable {src : Source} {c mid c' : Cursor}

/-- Tokens are taken, and the last of them does not decide about what follows. -/
def Lands (c c' : Cursor) : Prop :=
  ∃ front last, c.rest = front ++ last :: c'.rest ∧ c'.lastStop = last.stop ∧ last.token.Calm

theorem Lands.behind {taken : List Located} (lands : Lands mid c')
    (before : c.rest = taken ++ mid.rest) : Lands c c' := by
  obtain ⟨front, last, rest, stop, calm⟩ := lands
  exact ⟨taken ++ front, last, by rw [before, rest, List.append_assoc], stop, calm⟩

theorem Item.Stands.exists_last {classes : List ClassDecl} {taken behind : List Located}
    {item : Item} {stop : Nat} (stands : item.Stands src classes taken behind)
    (header : item.headerStop? = some stop) :
    ∃ front last, taken = front ++ [last] ∧ last.stop = stop ∧ last.token.Calm := by
  have finish {words tail : List Located} (split : taken = words ++ tail)
      (ends : taken.getLast?.map (·.stop) = some stop)
      (lasts : ∃ front last, tail = front ++ [last] ∧ last.token.Calm) :
      ∃ front last, taken = front ++ [last] ∧ last.stop = stop ∧ last.token.Calm := by
    obtain ⟨front, last, rfl, calm⟩ := lasts
    rw [split, ← List.append_assoc, List.getLast?_concat] at ends
    exact ⟨words ++ front, last, by rw [split, List.append_assoc], Option.some.inj ends, calm⟩
  cases stands with
  | blank => cases header
  | declared => cases header
  | package split _ announces ends =>
    cases header
    exact finish split ends
      (announces.exists_last fun _ spells => spells.elim fun _ known => known.1.exists_last)
  | imported split _ announces ends =>
    cases header
    exact finish split ends (announces.exists_last fun _ spelled => spelled.exists_last)

/-- What reading a package declaration or an import leaves behind. -/
structure EndsHeader (c c' : Cursor) : Prop where
  lands : Lands c c'
  docFloor : c'.docFloor = c'.lastStop

/-- A package declaration or an import ends where its item says, and no class is read with it. -/
theorem item_ends {found : Item} {stop : Nat} (read : item.on src c = .ok (found, c'))
    (order : Located.InOrder c.rest) (some : ∀ t ∈ c.rest, t.start < t.stop)
    (header : found.headerStop? = Option.some stop) :
    EndsHeader c c' ∧ c'.classes = c.classes ∧ c'.lastStop = stop ∧
      ∀ decl, found = .imported decl stop → decl.span.stop = stop := by
  obtain ⟨taken, reads, stands, closes⟩ := item_reads read
  obtain ⟨classes, docFloor⟩ := closes (by simp [header])
  obtain ⟨front, last, rfl, rfl, calm⟩ := stands.exists_last header
  have rest := reads.moves.rest
  have stops : c'.lastStop = last.stop := by
    rw [reads.moves.lastStop, List.getLast?_concat]
    rfl
  refine ⟨⟨⟨front, last, by simpa using rest, stops, calm⟩, docFloor⟩, classes, stops, ?_⟩
  rintro decl rfl
  cases stands with
  | imported _ _ _ _ span =>
    rw [rest] at order some
    have first := List.head?_eq_some_head (l := front ++ [last]) (by simp)
    rw [span, (Span.over_eq first List.getLast?_concat (List.pairwise_append.mp order).1
      fun t inside => some t (List.mem_append_left _ inside)).1]

end Parser

end CreatorSynth
