import CreatorSynth.Parser.Methods

/-! What the tokens that begin a statement tell of it. -/
namespace CreatorSynth.Parser

theorem ofTokens_take (ts : List Token) :
    StatementHead.ofTokens (ts.take 5) = StatementHead.ofTokens ts := by
  fun_cases StatementHead.ofTokens ts with
  | case7 _ superCall thisCall qualified plain =>
    have whole := List.take_append_drop 5 ts
    unfold StatementHead.ofTokens
    split
    · rename_i shape
      exact absurd (shape ▸ whole).symm (superCall _)
    · rename_i shape
      exact absurd (shape ▸ whole).symm (thisCall _)
    · rename_i shape
      exact absurd (shape ▸ whole).symm (qualified _ _)
    · rename_i shape
      exact absurd (shape ▸ whole).symm (plain _ _)
    · rfl
  | _ => simp_all [StatementHead.ofTokens, List.head?_take]

/-- Two tokens tell that a statement is no text that is kept. -/
theorem two_le_length_of_ofTokens {ts : List Token} (known : StatementHead.ofTokens ts ≠ .other) :
    2 ≤ ts.length := by
  match ts with
  | [] => exact absurd rfl known
  | [t] =>
    cases t with
    | keyword word => cases word <;> exact absurd rfl known
    | _ => exact absurd rfl known
  | t :: u :: more => simp

section Ended

variable {s : Symbol} (ends : s = .semicolon ∨ s = .rbrace)
include ends

/-- The tokens up to the one that ends the statement tell. -/
theorem ofTokens_ended (ts more : List Token) :
    StatementHead.ofTokens (ts ++ .symbol s :: more) = StatementHead.ofTokens ts := by
  fun_cases StatementHead.ofTokens ts with
  | case1 | case2 => rfl
  | case3 name rest equals | case5 name rest equals =>
    obtain ⟨rest, rfl⟩ := List.head?_eq_some_iff.mp equals
    rfl
  | case4 name rest other | case6 name rest other =>
    cases rest with
    | nil => rcases ends with rfl | rfl <;> rfl
    | cons t rest => exact if_neg other
  | case7 ts noSuper noThis noField noName =>
    -- No call and no assignment holds the last token, so it would begin in front of it.
    generalize whole : ts ++ .symbol s :: more = us
    have inside (front : List Token) {rest : List Token} (begins : us = front ++ rest)
        (other : Token.symbol s ∉ front) : ∃ rest, ts = front ++ rest := by
      rcases List.append_eq_append_iff.mp (whole.trans begins) with
        ⟨gap, rfl, split⟩ | ⟨gap, rfl, _⟩
      · cases gap with
        | nil => exact ⟨[], by rw [List.append_nil, List.append_nil]⟩
        | cons t gap =>
          obtain ⟨rfl, _⟩ := List.cons.inj split
          exact absurd (List.mem_append_right _ List.mem_cons_self) other
      · exact ⟨gap, rfl⟩
    have apart {t : Symbol} (listed : t ∈ [Symbol.lparen, .dot, .equals]) : s ≠ t := by
      rcases ends with rfl | rfl <;> rintro rfl <;> simp at listed
    fun_cases StatementHead.ofTokens us with
    | case1 rest =>
      obtain ⟨rest, shape⟩ := inside [_, _] rfl (by simp [apart])
      exact (noSuper rest shape).elim
    | case2 rest =>
      obtain ⟨rest, shape⟩ := inside [_, _] rfl (by simp [apart])
      exact (noThis rest shape).elim
    | case3 name rest | case4 name rest =>
      obtain ⟨rest, shape⟩ := inside [_, _, _, _] rfl (by simp [apart])
      exact (noField name rest shape).elim
    | case5 name rest | case6 name rest =>
      obtain ⟨rest, shape⟩ := inside [_, _] rfl (by simp [apart])
      exact (noName name rest shape).elim
    | case7 => rfl

theorem ofTokens_end (ts more : List Token) :
    StatementHead.ofTokens (ts ++ .symbol s :: more) =
      StatementHead.ofTokens (ts ++ [.symbol .semicolon]) := by
  rw [ofTokens_ended ends, ofTokens_ended (.inl rfl)]

end Ended

end CreatorSynth.Parser
