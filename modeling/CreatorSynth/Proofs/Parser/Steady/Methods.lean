import CreatorSynth.Proofs.Parser.Steady.Types

/-! Parameters, statements, bodies and fields answer alike within a window. -/
namespace CreatorSynth
open Text

namespace Parser

section Methods

variable {W : Window} {k : Nat}

theorem steady_param? :
    W.Steady 1 param? param? fun a b => a.map (Param.plain W.key) = b.map (Param.plain W.key) := by
  refine steady_nextStart.bind fun i j place => ?_
  refine steady_modifiers.bind fun modifiers modifiers' plain => ?_
  refine steady_typeRef.bind fun type _ same => ?_
  subst same
  refine (steady_accept (W.settled _)).bind fun varargs _ same => ?_
  subst same
  refine (steady_acceptKeyword (W.settled _)).bind fun receiver _ same => ?_
  subst same
  split
  · exact .pure rfl
  · refine (steady_identifier.weaken (Nat.zero_le 1)).bind fun name _ same => ?_
    subst same
    refine (steady_dimensions (W.settled _)).bind fun dims _ same => ?_
    subst same
    refine (steady_spanFrom i j).bind fun span span' _ => .pure ?_
    rw [Option.map_some, Option.map_some, Param.plain, Param.plain, plain]

theorem steady_params :
    W.Steady 1 params params fun as bs =>
      as.map (Param.plain W.key) = bs.map (Param.plain W.key) := by
  refine ((steady_expect .lparen).weaken (Nat.zero_le 1)).bind fun _ _ _ => ?_
  refine (steady_accept (W.settled _)).bind fun closed _ same => ?_
  subst same
  split
  · exact .pure rfl
  · refine (steady_separated .comma steady_param?).bind fun found found' same => ?_
    refine ((steady_expect .rparen).weaken (Nat.zero_le 1)).bind fun _ _ _ => .pure ?_
    have kept : ∀ found : List (Option Param), (found.filterMap id).map (Param.plain W.key) =
        (found.map (·.map (Param.plain W.key))).filterMap id := by
      intro found
      rw [List.map_filterMap, List.filterMap_map]
      rfl
    rw [kept, kept, same]

theorem steady_throwsClause : W.Steady 1 throwsClause throwsClause Eq := by
  refine (steady_acceptKeyword (W.settled _)).bind fun found _ same => ?_
  subst same
  split
  · exact steady_typeRefs .comma
  · exact .pure rfl

/-- A declaration may end with the window if it has to end with a semicolon, or none follows. -/
theorem steady_endDeclaration
    (settled : W.left.dialect = .java ∨ W.Settled k (.symbol .semicolon)) :
    W.Steady k endDeclaration endDeclaration Eq := by
  refine ⟨fun {us c d c' a} here run inside => ?_⟩
  rw [on_endDeclaration] at run
  rw [on_endDeclaration, ← W.dialect]
  cases dialect : W.left.dialect with
  | java =>
    rw [dialect] at run
    exact ((steady_expect .semicolon).weaken (Nat.zero_le k)).follow here run inside
  | groovy =>
    rw [dialect] at run
    have settled := settled.resolve_left (by rw [dialect]; exact nofun)
    have taken : ∀ (src : Source) (c : Cursor), ∃ b, (accept .semicolon).on src c = .ok (b,
        if c.rest.head?.map (·.token) = some (.symbol .semicolon) then c.next else c) := by
      intro src c
      rw [on_accept]
      split
      · exact ⟨true, rfl⟩
      · exact ⟨false, rfl⟩
    obtain ⟨b, left⟩ := taken W.left c
    obtain ⟨b', right⟩ := taken W.right d
    cases run
    obtain ⟨_, d', us', found, _, behind⟩ := (steady_accept settled).follow here left inside
    rw [right] at found
    cases found
    exact ⟨_, _, us', rfl, rfl, behind⟩

theorem steady_callStatement :
    W.Steady 1 callStatement callStatement fun as bs => as.map W.key = bs.map W.key := by
  refine steady_advance.bind fun _ _ _ => ?_
  refine (steady_callArgs.weaken (Nat.zero_le 1)).bind fun args args' same => ?_
  exact (steady_endDeclaration (.inr (W.settled _))).bind fun _ _ _ => .pure same

theorem steady_assignment {i j : Nat} (qualified : Bool) :
    W.Steady 1 (assignment qualified i) (assignment qualified j) fun a b =>
      a.plain W.key = b.plain W.key := by
  refine (steady_identifier.weaken (Nat.zero_le 1)).bind fun field _ same => ?_
  subst same
  refine ((steady_expect .equals).weaken (Nat.zero_le 1)).bind fun _ _ _ => ?_
  refine steady_expression.bind fun value value' same => ?_
  refine (steady_endDeclaration (.inr (W.settled _))).bind fun _ _ _ => ?_
  refine (steady_spanFrom i j).bind fun span span' _ => .pure ?_
  rw [Statement.plain, Statement.plain, same]

theorem steady_statementFrom {i j : Nat} (head : StatementHead) :
    W.Steady 1 (statementFrom i head) (statementFrom j head) fun a b =>
      a.plain W.key = b.plain W.key := by
  unfold statementFrom
  split
  · refine steady_callStatement.bind fun args args' same => ?_
    refine (steady_spanFrom i j).bind fun span span' _ => .pure ?_
    rw [Statement.plain, Statement.plain, same]
  · refine steady_callStatement.bind fun args args' same => ?_
    refine (steady_spanFrom i j).bind fun span span' _ => .pure ?_
    rw [Statement.plain, Statement.plain, same]
  · exact steady_assignment false
  · exact steady_advance.bind fun _ _ _ => steady_advance.bind fun _ _ _ => steady_assignment true
  · refine steady_rawStatement.bind fun text text' same => ?_
    refine (steady_spanFrom i j).bind fun span span' _ => .pure ?_
    rw [Statement.plain, Statement.plain, same]

end Methods

section Heads

open StatementHead

theorem exists_cons_cons {ts : List Token} {t u : Token} (first : ts[0]? = some t)
    (second : ts[1]? = some u) : ∃ more, ts = t :: u :: more := by
  rcases ts with _ | ⟨v, _ | ⟨w, more⟩⟩
  · cases first
  · cases second
  · cases first
    cases second
    exact ⟨more, rfl⟩

def isNamed : Option Token → Bool
  | some (.name _) => true
  | _ => false

theorem isNamed_iff {t : Option Token} : isNamed t = true ↔ ∃ name, t = some (.name name) := by
  constructor
  · intro named
    rcases t with _ | t
    · cases named
    · cases t <;> first | exact ⟨_, rfl⟩ | cases named
  · rintro ⟨name, rfl⟩
    rfl

theorem ofTokens_eq (ts : List Token) :
    ofTokens ts =
      if ts[0]? = some (.keyword .superWord) ∧ ts[1]? = some (.symbol .lparen) then superCall
      else if ts[0]? = some (.keyword .thisWord) ∧ ts[1]? = some (.symbol .lparen) then thisCall
      else if ts[0]? = some (.keyword .thisWord) ∧ ts[1]? = some (.symbol .dot) ∧
          isNamed ts[2]? ∧ ts[3]? = some (.symbol .equals) then
        if ts[4]? = some (.symbol .equals) then other else .assignment true
      else if isNamed ts[0]? ∧ ts[1]? = some (.symbol .equals) then
        if ts[2]? = some (.symbol .equals) then other else .assignment false
      else other := by
  unfold ofTokens
  split
  · simp
  · simp
  · simp [isNamed, List.head?_eq_getElem?]
  · simp [isNamed, List.head?_eq_getElem?]
  · rename_i superCalled thisCalled field name
    rw [if_neg, if_neg, if_neg, if_neg]
    · rintro ⟨named, second⟩
      obtain ⟨text, first⟩ := isNamed_iff.mp named
      obtain ⟨more, shape⟩ := exists_cons_cons first second
      exact name text more shape
    · rintro ⟨first, second, named, fourth⟩
      obtain ⟨text, third⟩ := isNamed_iff.mp named
      obtain ⟨more, rfl⟩ := exists_cons_cons first second
      obtain ⟨more', rfl⟩ := @exists_cons_cons more _ _ third fourth
      exact field text more' rfl
    · rintro ⟨first, second⟩
      obtain ⟨more, shape⟩ := exists_cons_cons first second
      exact thisCalled more shape
    · rintro ⟨first, second⟩
      obtain ⟨more, shape⟩ := exists_cons_cons first second
      exact superCalled more shape

/-- A word that begins a statement of a kind of its own. -/
def Leads (t : Option Token) : Prop :=
  t = some (.keyword .superWord) ∨ t = some (.keyword .thisWord) ∨ isNamed t

theorem isNamed_of_sign {t u : Option Token} (same : t.map Token.sign = u.map Token.sign) :
    isNamed t = isNamed u := by
  rcases t with _ | t <;> rcases u with _ | u
  · rfl
  · cases same
  · cases same
  · cases t <;> cases u <;> simp_all [isNamed, Token.sign]

theorem ofTokens_field {ts : List Token} (first : ts[0]? = some (.keyword .thisWord))
    (second : ts[1]? = some (.symbol .dot)) :
    ofTokens ts = if isNamed ts[2]? ∧ ts[3]? = some (.symbol .equals) then
      if ts[4]? = some (.symbol .equals) then other else .assignment true else other := by
  have named : isNamed ts[0]? = false := by rw [first]; rfl
  rw [ofTokens_eq, named]
  simp only [first, second, Option.some.injEq, Token.keyword.injEq, Token.symbol.injEq,
    reduceCtorEq, and_false, true_and, Bool.false_eq_true, ↓reduceIte]

theorem ofTokens_plain {ts : List Token}
    (unfielded : ¬ (ts[0]? = some (.keyword .thisWord) ∧ ts[1]? = some (.symbol .dot))) :
    ofTokens ts =
      if ts[0]? = some (.keyword .superWord) ∧ ts[1]? = some (.symbol .lparen) then superCall
      else if ts[0]? = some (.keyword .thisWord) ∧ ts[1]? = some (.symbol .lparen) then thisCall
      else if isNamed ts[0]? ∧ ts[1]? = some (.symbol .equals) then
        if ts[2]? = some (.symbol .equals) then other else .assignment false
      else other := by
  have field : ¬ (ts[0]? = some (.keyword .thisWord) ∧ ts[1]? = some (.symbol .dot) ∧
      isNamed ts[2]? ∧ ts[3]? = some (.symbol .equals)) :=
    fun shape => unfielded ⟨shape.1, shape.2.1⟩
  rw [ofTokens_eq, if_neg field]

theorem some_iff {t u : Option Token} {v : Token} (same : t.map Token.sign = u.map Token.sign)
    (solid : ∀ text, v ≠ .string text) : t = some v ↔ u = some v := by
  rcases t with _ | t <;> rcases u with _ | u
  · exact Iff.rfl
  · cases same
  · cases same
  · rw [Option.some.injEq, Option.some.injEq]
    exact Token.eq_iff_of_sign (Option.some.inj same) solid

/-- Tokens ahead on either side: the first `n` are the same, and one that is not calm is not the
last of them. -/
structure Agree (n : Nat) (ts ts' : List Token) : Prop where
  same : ∀ i, i < n → ts[i]?.map Token.sign = ts'[i]?.map Token.sign
  calm : ∀ {i t}, ts[i]? = some t → ¬ t.Calm → i < n → i + 1 < n

/-- The head of a statement is the same on either side, unless its first tokens reach beyond those
that agree. -/
theorem ofTokens_same {n : Nat} {ts ts' : List Token} (agree : Agree n ts ts') (one : 1 ≤ n)
    (two : Leads ts[0]? → 2 ≤ n)
    (four : ofTokens ts = .assignment true → 4 ≤ n)
    (unequal : n = 3 → ts'[3]? ≠ some (.symbol .equals)) : ofTokens ts = ofTokens ts' := by
  have first := agree.same 0 one
  have super := some_iff first (v := .keyword .superWord) nofun
  have this := some_iff first (v := .keyword .thisWord) nofun
  have named := isNamed_of_sign first
  by_cases leads : Leads ts[0]?
  · have second := agree.same 1 (two leads)
    have lparen := some_iff second (v := .symbol .lparen) nofun
    have dot := some_iff second (v := .symbol .dot) nofun
    have equals := some_iff second (v := .symbol .equals) nofun
    by_cases field : ts[0]? = some (.keyword .thisWord) ∧ ts[1]? = some (.symbol .dot)
    · have third := isNamed_of_sign (agree.same 2
        (agree.calm field.2 (by simp [Token.Calm]) (two leads)))
      have left := ofTokens_field field.1 field.2
      have right := ofTokens_field (this.mp field.1) (dot.mp field.2)
      by_cases more : 4 ≤ n
      · have fourth := some_iff (agree.same 3 more) (v := .symbol .equals) nofun
        rw [left, right, ← third]
        by_cases assigns : isNamed ts[2]? ∧ ts[3]? = some (.symbol .equals)
        · have fifth := agree.calm assigns.2 (by simp [Token.Calm]) more
          have compares := some_iff (agree.same 4 fifth) (v := .symbol .equals) nofun
          have assigns' : isNamed ts[2]? ∧ ts'[3]? = some (.symbol .equals) :=
            ⟨assigns.1, fourth.mp assigns.2⟩
          rw [if_pos assigns, if_pos assigns']
          simp only [compares]
        · have assigns' : ¬ (isNamed ts[2]? ∧ ts'[3]? = some (.symbol .equals)) := by
            rwa [← fourth]
          rw [if_neg assigns, if_neg assigns']
      · have plain := unequal (by
          have begun := agree.calm field.2 (by simp [Token.Calm]) (two leads)
          omega)
        rw [right, if_neg fun assigns => plain assigns.2]
        rw [left] at four ⊢
        split
        · rename_i assigns
          split
          · rfl
          · rename_i compares
            rw [if_pos assigns, if_neg compares] at four
            exact absurd (four rfl) more
        · rfl
    · have field' : ¬ (ts'[0]? = some (.keyword .thisWord) ∧ ts'[1]? = some (.symbol .dot)) := by
        rwa [← this, ← dot]
      rw [ofTokens_plain field, ofTokens_plain field', ← named]
      by_cases assigns : isNamed ts[0]? ∧ ts[1]? = some (.symbol .equals)
      · have third := agree.calm assigns.2 (by simp [Token.Calm]) (two leads)
        have compares := some_iff (agree.same 2 third) (v := .symbol .equals) nofun
        simp only [super, this, lparen, equals, compares]
      · have assigns' : ¬ (isNamed ts[0]? ∧ ts'[1]? = some (.symbol .equals)) := by
          rwa [← equals]
        rw [if_neg assigns, if_neg assigns']
        simp only [super, this, lparen]
  · have unled : ¬ Leads ts'[0]? := by
      intro other
      refine leads ?_
      rwa [Leads, super, this, named]
    rw [ofTokens_eq, ofTokens_eq ts']
    simp only [Leads, not_or] at leads unled
    simp only [leads, unled, false_and, Bool.false_eq_true, ↓reduceIte]

end Heads

section Statements

variable {W : Window} {us : List (Located × Located)} {c d c' : Cursor}

theorem agree_upcoming (here : W.At us c d) :
    ∃ n, Agree n ((c.rest.take 5).map (·.token)) ((d.rest.take 5).map (·.token)) ∧
      (n = 6 ∨ n = us.length ∧ ¬ W.Closed ∧
        (n = 3 → ((d.rest.take 5).map (·.token))[3]? ≠ some (.symbol .equals))) := by
  have signs : ∀ i (short : i < us.length), (us[i].1).token.sign = (us[i].2).token.sign :=
    fun i short => (here.alike _ (List.getElem_mem short)).sign
  have at' : ∀ (f : Located × Located → Located) (tail : List Located) (i : Nat) (short : i < us.length),
      (((us.map f ++ tail).take 5).map (·.token))[i]? =
        if i < 5 then some (f us[i]).token else none := by
    intro f tail i short
    rw [List.getElem?_map, List.getElem?_take]
    split
    · rw [List.getElem?_append_left (by rwa [List.length_map]), List.getElem?_map,
        List.getElem?_eq_getElem short]
      rfl
    · rfl
  by_cases closed : W.Closed
  · refine ⟨6, ⟨fun i _ => ?_, fun {i t} found _ small => ?_⟩, .inl rfl⟩
    · rw [here.left, here.right, closed.1, closed.2]
      by_cases short : i < us.length
      · rw [at' (·.1) _ i short, at' (·.2) _ i short]
        split
        · exact congrArg some (signs i short)
        · rfl
      · have none : ∀ f : Located × Located → Located,
            (((us.map f ++ []).take 5).map fun t : Located => t.token)[i]? = none := by
          intro f
          rw [List.getElem?_eq_none_iff]
          simp only [List.append_nil, List.length_map, List.length_take]
          omega
        rw [none, none]
    · have small' : i < ((c.rest.take 5).map (·.token)).length := by
        rw [List.getElem?_eq_some_iff] at found
        exact found.1
      simp only [List.length_map, List.length_take] at small'
      omega
  · have calm := here.calm.resolve_left closed
    refine ⟨us.length, ⟨fun i short => ?_, fun {i t} found restless short => ?_⟩,
      .inr ⟨rfl, closed, fun three => ?_⟩⟩
    · rw [here.left, here.right, at' (·.1) _ i short, at' (·.2) _ i short]
      split
      · exact congrArg some (signs i short)
      · rfl
    · refine Nat.lt_of_le_of_ne short fun last => ?_
      rw [here.left, at' (·.1) _ i short] at found
      split at found
      · have final : us.getLast? = some us[i] := by
          rw [List.getLast?_eq_getElem?, ← last, Nat.add_sub_cancel,
            List.getElem?_eq_getElem short]
        rw [← Option.some.inj found] at restless
        exact restless (calm _ final)
      · cases found
    · intro equal
      have head : W.rightTail.head?.map (·.token) = some (.symbol .equals) := by
        rw [← equal, here.right, List.getElem?_map, List.getElem?_take, if_pos (by omega),
          List.getElem?_append_right (by rw [List.length_map]; omega), List.length_map, three,
          List.head?_eq_getElem?]
      obtain ⟨t, first, token⟩ := Option.map_eq_some_iff.mp head
      exact W.unequal t first token

theorem follow_statement {a : Option Statement} (here : W.At us c d) (more : c.rest ≠ [])
    (inner : c.rest.head?.map (·.token) ≠ some (.symbol .rbrace))
    (run : statement.on W.left c = .ok (a, c')) (inside : W.Inside 1 c') :
    ∃ b d' us', statement.on W.right d = .ok (b, d') ∧
      a.map (Statement.plain W.key) = b.map (Statement.plain W.key) ∧ W.At us' c' d' := by
  have inside' : W.Inside 1 c :=
    inside.earlier (n := 0) (Onward.length_le run) (Onward.classes run) (Nat.le_refl 1)
  obtain ⟨j, _, _, starts, place, _⟩ := steady_nextStart.follow here on_nextStart inside'
  rw [on_nextStart] at starts
  cases starts
  rw [statement, on_bind_of_ok on_nextStart] at run
  rw [statement, on_bind_of_ok on_nextStart]
  obtain ⟨found, mid, first, second⟩ := on_bind_eq_ok.mp run
  have accepted := first
  rw [on_accept] at accepted
  split at accepted
  · rename_i empty
    cases accepted
    cases second
    obtain ⟨us', right, behind⟩ := here.accept_some inside empty
    exact ⟨none, _, us', by rw [on_bind_of_ok right]; rfl, rfl, behind⟩
  · rename_i open'
    cases accepted
    have right := here.accept_none inside' open'
    rw [if_neg Bool.false_ne_true, on_bind_of_ok (on_upcoming 5)] at second
    simp only [on_bind_of_ok right, Bool.false_eq_true, ↓reduceIte,
      on_bind_of_ok (on_upcoming 5)]
    obtain ⟨s, last, read, ends⟩ := on_bind_eq_ok.mp second
    cases ends
    obtain ⟨t, ts, rest⟩ := List.exists_cons_of_ne_nil more
    rw [rest] at open' inner
    have taken := statementFrom_eats (t := t.token) _ (by rw [rest]; rfl)
      (fun same => open' (congrArg some same)) (fun same => inner (congrArg some same)) read
    have heads : StatementHead.ofTokens ((c.rest.take 5).map (·.token)) =
        StatementHead.ofTokens ((d.rest.take 5).map (·.token)) := by
      obtain ⟨n, agree, six | ⟨count, apart, unequal⟩⟩ := agree_upcoming here
      · exact ofTokens_same agree (by omega) (fun _ => by omega) (fun _ => by omega)
          fun three => absurd three (by omega)
      · have left := inside.rest.resolve_left apart
        have whole := congrArg List.length here.left
        rw [List.length_append, List.length_map] at whole
        refine ofTokens_same agree (by omega) (fun _ => by omega) (fun assigns => ?_) unequal
        rw [assigns] at read
        have reached := assignment_taken _ read
        omega
    rw [← heads]
    obtain ⟨s', d'', us', read', same, behind⟩ :=
      (steady_statementFrom _).follow here read inside
    refine ⟨some s', d'', us', ?_, congrArg some same, behind⟩
    rw [on_bind_of_ok read', on_pure]

theorem steady_blockStep :
    W.Steady 1 blockStep blockStep fun a b =>
      a.map (·.map (Statement.plain W.key)) = b.map (·.map (Statement.plain W.key)) := by
  refine ⟨fun {us c d c' a} here run inside => ?_⟩
  have inside' : W.Inside 1 c :=
    inside.earlier (n := 0) (Onward.length_le run) (Onward.classes run) (Nat.le_refl 1)
  rw [blockStep, on_bind_of_ok (on_sees _)] at run
  rw [blockStep, on_bind_of_ok (on_sees _), ← here.sees_same inside']
  split at run
  · rename_i ends
    cases run
    rw [if_pos ends]
    exact ⟨none, d, us, rfl, rfl, here⟩
  · rename_i inner
    rw [if_neg inner]
    obtain ⟨_, mid, more, read⟩ := on_bind_eq_ok.mp run
    have some : c.rest ≠ [] ∧ mid = c := by
      rw [expectMore, on_bind_of_ok on_atEnd] at more
      split at more
      · rename_i empty
        rw [on_bind_of_ok on_nextStart] at more
        cases more
      · rename_i nonempty
        cases more
        exact ⟨fun empty => nonempty (by rw [empty]; rfl), rfl⟩
    rw [some.2] at more read
    obtain ⟨_, d'', us', right', _, there⟩ := steady_expectMore.follow here more inside'
    obtain ⟨s, last, statement', ends⟩ := on_bind_eq_ok.mp read
    cases ends
    obtain ⟨s', d₃, us'', found, plain, behind⟩ := follow_statement there some.1
      (fun ends => inner (by rw [ends]; rfl)) statement' inside
    refine ⟨Option.some s', d₃, us'', ?_, congrArg Option.some plain, behind⟩
    rw [on_bind_of_ok right', on_bind_of_ok found, on_pure]

theorem steady_block : W.Steady 0 block block fun a b => a.plain W.key = b.plain W.key := by
  refine steady_nextStart.before fun i j place => ?_
  refine (steady_expect .lbrace).bind fun _ _ _ => ?_
  refine (steady_many steady_blockStep).before fun found found' same => ?_
  refine (steady_expect .rbrace).bind fun _ _ _ => ?_
  refine (steady_spanFrom i j).bind fun span span' _ => .pure ?_
  have kept : ∀ found : List (Option Statement), (found.filterMap id).map (Statement.plain W.key) =
      (found.map (·.map (Statement.plain W.key))).filterMap id := by
    intro found
    rw [List.map_filterMap, List.filterMap_map]
    rfl
  rw [Block.plain, Block.plain, kept, kept, same]

theorem steady_skipDefault : W.Steady 1 skipDefault skipDefault Eq := by
  refine (steady_acceptWord (W.settled _)).bind fun found _ same => ?_
  subst same
  split
  · exact steady_expression.bind fun _ _ _ => .pure rfl
  · exact .pure rfl

end Statements

section Bodies

variable {W : Window} {k : Nat}

theorem steady_body? (settled : 1 ≤ k ∨ W.left.dialect = .java) :
    W.Steady k body? body? fun a b => a.map (Block.plain W.key) = b.map (Block.plain W.key) := by
  have bodies : ∀ {k}, W.Steady k (do return some (← block) : Parser (Option Block))
      (do return some (← block)) fun a b => a.map (Block.plain W.key) = b.map (Block.plain W.key) :=
    (steady_block.weaken (Nat.zero_le _)).bind fun a b same => .pure (congrArg some same)
  rcases settled with one | java
  · refine Window.Steady.weaken ?_ one
    refine (steady_sees .lbrace).bind fun found _ same => ?_
    subst same
    split
    · exact bodies
    · refine steady_skipDefault.bind fun _ _ _ => ?_
      exact (steady_endDeclaration (.inr (W.settled _))).bind fun _ _ _ => .pure rfl
  · have := eats_endDeclaration java
    refine Window.Steady.weaken ?_ (Nat.zero_le k)
    refine (steady_sees .lbrace).before fun found _ same => ?_
    subst same
    split
    · exact bodies
    · refine steady_skipDefault.before fun _ _ _ => ?_
      exact (steady_endDeclaration (.inl java)).bind fun _ _ _ => .pure rfl

variable {us : List (Located × Located)} {c d c' : Cursor}

theorem follow_body {body : Block} (here : W.At us c d)
    (run : body?.on W.left c = .ok (some body, c')) (inside : W.Inside 0 c') :
    ∃ body' d' us', body?.on W.right d = .ok (some body', d') ∧
      body.plain W.key = body'.plain W.key ∧ W.At us' c' d' := by
  have inside' : W.Inside 1 c :=
    inside.earlier (n := 1) (body?_eats run) (Onward.classes run) (Nat.le_refl 1)
  rw [body?, on_bind_of_ok (on_sees _)] at run
  rw [body?, on_bind_of_ok (on_sees _), ← here.sees_same inside']
  split at run
  · rename_i opens
    rw [if_pos opens]
    obtain ⟨_, mid, read, ends⟩ := on_bind_eq_ok.mp run
    cases ends
    obtain ⟨body', d', us', right, same, behind⟩ := steady_block.follow here read inside
    exact ⟨body', d', us', by rw [on_bind_of_ok right, on_pure], same, behind⟩
  · obtain ⟨_, mid, _, ended⟩ := on_bind_eq_ok.mp run
    obtain ⟨_, last, _, none⟩ := on_bind_eq_ok.mp ended
    cases none

section MethodRest

variable {modifiers modifiers' : Modifiers} {typeParams : List TypeParam}
  {returnType : Option TypeRef} {name : String} {i j : Nat} {doc doc' : Option String}

/-- A method ends with the window in Java, or if it has a body. -/
theorem follow_methodRest {m : MethodDecl} (plain : modifiers.plain W.key = modifiers'.plain W.key)
    (docs : doc.map W.key = doc'.map W.key)
    (settled : 1 ≤ k ∨ W.left.dialect = .java ∨ m.body.isSome) (here : W.At us c d)
    (run : (methodRest modifiers typeParams returnType name i doc).on W.left c = .ok (m, c'))
    (inside : W.Inside k c') :
    ∃ m' d' us', (methodRest modifiers' typeParams returnType name j doc').on W.right d =
      .ok (m', d') ∧ m.plain W.key = m'.plain W.key ∧ W.At us' c' d' := by
  unfold methodRest at run ⊢
  obtain ⟨params, c₁, run₁, run⟩ := on_bind_eq_ok.mp run
  obtain ⟨dims, c₂, run₂, run⟩ := on_bind_eq_ok.mp run
  obtain ⟨throws, c₃, run₃, run⟩ := on_bind_eq_ok.mp run
  obtain ⟨body, _, run₄, run⟩ := on_bind_eq_ok.mp run
  cases run
  -- Whatever ends the method is still ahead of what stands in front of it.
  have inside₃ : W.Inside 1 c₃ := by
    rcases settled with one | java | some
    · exact inside.earlier (n := 0) (Onward.length_le run₄) (Onward.classes run₄) (by omega)
    · have := eats_body? java
      exact inside.earlier (n := 1) (Eats.eats run₄) (Onward.classes run₄) (by omega)
    · obtain ⟨block, rfl⟩ := Option.isSome_iff_exists.mp some
      exact inside.earlier (n := 1) (body?_eats run₄) (Onward.classes run₄) (by omega)
  have inside₂ : W.Inside 1 c₂ :=
    inside₃.earlier (n := 0) (Onward.length_le run₃) (Onward.classes run₃) (Nat.le_refl 1)
  have inside₁ : W.Inside 1 c₁ :=
    inside₂.earlier (n := 0) (Onward.length_le run₂) (Onward.classes run₂) (Nat.le_refl 1)
  obtain ⟨params', d₁, _, right₁, plain₁, there₁⟩ := steady_params.follow here run₁ inside₁
  obtain ⟨_, d₂, _, right₂, rfl, there₂⟩ :=
    (steady_dimensions (W.settled _)).follow there₁ run₂ inside₂
  obtain ⟨_, d₃, _, right₃, rfl, there₃⟩ := steady_throwsClause.follow there₂ run₃ inside₃
  have last : ∃ body' d₄ us', body?.on W.right d₃ = .ok (body', d₄) ∧
      body.map (Block.plain W.key) = body'.map (Block.plain W.key) ∧ W.At us' c' d₄ := by
    rcases settled with one | java | some
    · exact (steady_body? (.inl one)).follow there₃ run₄ inside
    · exact (steady_body? (.inr java)).follow there₃ run₄ inside
    · obtain ⟨block, rfl⟩ := Option.isSome_iff_exists.mp some
      obtain ⟨body', d₄, us', right, same, behind⟩ :=
        follow_body there₃ run₄ (inside.weaken (Nat.zero_le k))
      exact ⟨_, d₄, us', right, congrArg Option.some same, behind⟩
  obtain ⟨body', d₄, us', right₄, plain₄, behind⟩ := last
  refine ⟨{
    modifiers := modifiers', typeParams, name, params := params', throws, body := body', doc := doc'
    returnType := returnType.map (·.array dims), span := ⟨j, max d₄.lastStop j⟩ }, d₄, us', ?_, ?_,
    behind⟩
  · rw [on_bind_of_ok right₁, on_bind_of_ok right₂, on_bind_of_ok right₃, on_bind_of_ok right₄]
    rfl
  · simp only [MethodDecl.plain, plain, docs, plain₁, plain₄]

end MethodRest

end Bodies

section Fields

variable {W : Window} {k : Nat}

/-- What follows the window on the right does not go on a field, nor stand on its line. -/
structure Window.Quiet (W : Window) : Prop where
  breaks : W.Breaks
  apart : ∀ t ∈ W.rightTail.head?, t.token ∉ [.symbol .semicolon, .symbol .comma,
    .symbol .equals, .symbol .lbracket, .symbol .lparen]

theorem Window.Quiet.settled {t : Token} (quiet : 1 ≤ k ∨ W.Quiet)
    (listed : t ∈ [.symbol .semicolon, .symbol .comma, .symbol .equals, .symbol .lbracket,
      .symbol .lparen]) : W.Settled k t :=
  quiet.imp_right fun quiet u head same => quiet.apart u head (same ▸ listed)

/-- The last token of a window is no equals sign if something follows the window. -/
theorem equals_not_last {us : List (Located × Located)} {c d d' : Cursor} (here : W.At us c d)
    (head : c.rest.head?.map (·.token) = some (.symbol .equals)) (there : W.At [] c.next d')
    (breaks : W.Breaks) : False := by
  have lengths := congrArg List.length there.left
  have shorter := next_length_of_head head
  have whole := congrArg List.length here.left
  rw [List.length_append, List.length_map] at whole lengths
  rcases us with _ | ⟨u, _ | ⟨v, us⟩⟩
  · simp only [List.length_nil] at whole lengths
    omega
  · rw [here.left_head, Option.map_some, Option.some.injEq] at head
    obtain ⟨t, ts, follows, _⟩ := breaks
    rcases here.calm with closed | calm
    · rw [closed.2] at follows
      cases follows
    · exact absurd (calm u rfl) (by simp [head, Token.Calm])
  · have one := Cursor.length_next c
    simp only [List.length_nil, List.length_cons] at whole lengths
    omega

theorem steady_initializer? (quiet : 1 ≤ k ∨ W.Quiet) :
    W.Steady k initializer? initializer? fun a b => a.map W.key = b.map W.key := by
  refine ⟨fun {us c d c' a} here run inside => ?_⟩
  obtain ⟨found, mid, first, second⟩ := on_bind_eq_ok.mp run
  obtain ⟨_, mid', us', right, rfl, there⟩ :=
    (steady_accept (Window.Quiet.settled quiet (by simp))).follow here first
      (inside.earlier (n := 0) (Onward.length_le second) (Onward.classes second) (Nat.le_refl k))
  rw [initializer?, on_bind_of_ok right]
  split at second
  · rename_i sign
    obtain ⟨text, last, read, ends⟩ := on_bind_eq_ok.mp second
    cases ends
    -- The equals sign is not the last token of the window.
    have more : 1 ≤ k ∨ (W.Breaks ∧ us' ≠ []) := by
      refine quiet.imp_right fun quiet => ⟨quiet.breaks, ?_⟩
      rintro rfl
      rw [sign, on_accept] at first
      split at first
      · rename_i head
        cases first
        exact equals_not_last here head there quiet.breaks
      · cases first
    obtain ⟨text', d', us'', right', same, behind⟩ := follow_initializer there more read inside
    rw [if_pos sign, on_bind_of_ok right']
    exact ⟨_, d', us'', rfl, congrArg Option.some same, behind⟩
  · rename_i none
    cases second
    rw [if_neg none]
    exact ⟨_, mid', us', rfl, rfl, there⟩

/-- A variable without its place. -/
def plainVariable (key : String → String) :
    String × Nat × Option String → String × Nat × Option String
  | (name, dims, initializer) => (name, dims, initializer.map key)

theorem steady_declarator (quiet : 1 ≤ k ∨ W.Quiet) (name : String) :
    W.Steady k (declarator name) (declarator name) fun a b =>
      plainVariable W.key a = plainVariable W.key b := by
  refine (steady_dimensions (Window.Quiet.settled quiet (by simp))).bind fun dims _ same => ?_
  subst same
  refine (steady_initializer? quiet).bind fun value value' same => .pure ?_
  rw [plainVariable, plainVariable, same]

theorem steady_nextDeclarator (quiet : 1 ≤ k ∨ W.Quiet) :
    W.Steady k nextDeclarator nextDeclarator fun a b =>
      a.map (plainVariable W.key) = b.map (plainVariable W.key) := by
  refine (steady_accept (Window.Quiet.settled quiet (by simp))).bind fun found _ same => ?_
  subst same
  split
  · refine (steady_identifier.weaken (Nat.zero_le k)).bind fun name _ same => ?_
    subst same
    exact (steady_declarator quiet name).bind fun a b same => .pure (congrArg some same)
  · exact .pure rfl

variable {modifiers modifiers' : Modifiers} {type : TypeRef} {name : String} {i j : Nat}
  {doc doc' : Option String} {renumber renumber' : ClassId → ClassId}

theorem fields_plain (plain : modifiers.plain W.key = modifiers'.plain W.key)
    (docs : doc.map W.key = doc'.map W.key) {span span' : Span}
    {found found' : List (String × Nat × Option String)}
    (same : found.map (plainVariable W.key) = found'.map (plainVariable W.key)) :
    (found.map fun (name, dims, initializer) => Member.field {
        modifiers, name, initializer, doc, span, type := type.array dims }).map
        (Member.plain W.key renumber) =
      (found'.map fun (name, dims, initializer) => Member.field {
        modifiers := modifiers', name, initializer, doc := doc', span := span'
        type := type.array dims }).map (Member.plain W.key renumber') := by
  induction found generalizing found' with
  | nil =>
    cases found' with
    | nil => rfl
    | cons v found' => cases same
  | cons v found ih =>
    cases found' with
    | nil => cases same
    | cons v' found' =>
      obtain ⟨name, dims, value⟩ := v
      obtain ⟨name', dims', value'⟩ := v'
      rw [List.map_cons, List.map_cons, List.cons.injEq] at same
      obtain ⟨first, others⟩ := same
      simp only [plainVariable, Prod.mk.injEq] at first
      obtain ⟨rfl, rfl, values⟩ := first
      simp only [List.map_cons, ih others, Member.plain, FieldDecl.plain, plain, docs, values]

/-- A field declaration ends with the window in Java, or if what follows does not go on with it. -/
theorem steady_fieldRest (plain : modifiers.plain W.key = modifiers'.plain W.key)
    (docs : doc.map W.key = doc'.map W.key)
    (settled : 1 ≤ k ∨ W.left.dialect = .java ∨ W.Quiet) :
    W.Steady k (fieldRest modifiers type name i doc) (fieldRest modifiers' type name j doc')
      fun as bs => as.map (Member.plain W.key W.renumber) = bs.map (Member.plain W.key id) := by
  have others : ∀ {k}, 1 ≤ k ∨ W.Quiet → W.Steady k (many nextDeclarator) (many nextDeclarator)
      fun as bs => as.map (plainVariable W.key) = bs.map (plainVariable W.key) :=
    fun quiet => steady_many (steady_nextDeclarator quiet)
  have fields : ∀ {first first' : String × Nat × Option String} {others others'},
      plainVariable W.key first = plainVariable W.key first' →
      others.map (plainVariable W.key) = others'.map (plainVariable W.key) →
      (first :: others).map (plainVariable W.key) =
        (first' :: others').map (plainVariable W.key) := by
    intro first first' others others' same more
    rw [List.map_cons, List.map_cons, same, more]
  rcases settled with one | java | quiet
  · refine (steady_declarator (.inl one) name).bind fun first first' same => ?_
    refine (others (.inl one)).bind fun _ _ more => ?_
    refine (steady_endDeclaration (.inr (.inl one))).bind fun _ _ _ => ?_
    exact (steady_spanFrom i j).bind fun _ _ _ => .pure (fields_plain plain docs (fields same more))
  · have := eats_endDeclaration java
    refine Window.Steady.weaken ?_ (Nat.zero_le k)
    refine (steady_declarator (.inl (Nat.le_refl 1)) name).before fun first first' same => ?_
    refine (others (.inl (Nat.le_refl 1))).before fun _ _ more => ?_
    refine (steady_endDeclaration (.inl java)).bind fun _ _ _ => ?_
    exact (steady_spanFrom i j).bind fun _ _ _ => .pure (fields_plain plain docs (fields same more))
  · refine (steady_declarator (.inr quiet) name).bind fun first first' same => ?_
    refine (others (.inr quiet)).bind fun _ _ more => ?_
    have settled : W.Settled k (.symbol .semicolon) :=
      Window.Quiet.settled (.inr quiet) (by simp)
    refine (steady_endDeclaration (.inr settled)).bind fun _ _ _ => ?_
    exact (steady_spanFrom i j).bind fun _ _ _ => .pure (fields_plain plain docs (fields same more))

end Fields

end Parser

end CreatorSynth
