import CreatorSynth.Proofs.Parser.Steady.Methods

/-! Constants, heads of classes, members and classes answer alike within a window. -/
namespace CreatorSynth
open Text

namespace Parser

section Heads

variable {W : Window}

theorem steady_skipConstantBody : W.Steady 1 skipConstantBody skipConstantBody Eq := by
  refine (steady_sees .lbrace).bind fun found _ same => ?_
  subst same
  split
  · exact ((steady_group rfl rfl).weaken (Nat.zero_le 1)).bind fun _ _ _ => .pure rfl
  · exact .pure rfl

variable {renumber renumber' : ClassId → ClassId}

theorem steady_enumConstant :
    W.Steady 1 enumConstant enumConstant fun a b =>
      a.plain W.key renumber = b.plain W.key renumber' := by
  refine steady_nextStart.bind fun i j place => ?_
  refine steady_modifiers.bind fun _ _ _ => ?_
  refine (steady_identifier.weaken (Nat.zero_le 1)).bind fun name _ same => ?_
  subst same
  refine steady_argumentText?.bind fun args args' same => ?_
  refine steady_skipConstantBody.bind fun _ _ _ => ?_
  refine (steady_spanFrom i j).bind fun span span' _ => .pure ?_
  simp only [Member.plain, EnumConstant.plain, same]

theorem steady_endConstants : W.Steady 1 endConstants endConstants Eq := by
  refine (steady_sees .rbrace).bind fun found _ same => ?_
  subst same
  cases found with
  | true => exact .pure rfl
  | false => exact steady_endDeclaration (.inr (W.settled _))

theorem steady_enumConstantsWithin {m n : Nat} (le : m ≤ n) :
    W.Steady 1 (enumConstantsWithin m) (enumConstantsWithin n) fun as bs =>
      as.map (Member.plain W.key renumber) = bs.map (Member.plain W.key renumber') := by
  induction m generalizing n with
  | zero => exact .throw
  | succ m ih =>
    obtain ⟨n, rfl⟩ : ∃ n', n = n' + 1 := ⟨n - 1, by omega⟩
    refine (steady_accept (W.settled _)).bind fun ended _ same => ?_
    subst same
    split
    · exact .pure rfl
    refine (steady_sees .rbrace).bind fun closed _ same => ?_
    subst same
    split
    · exact .pure rfl
    have constants : W.Steady 1 enumConstant enumConstant fun a b =>
        a.plain W.key renumber = b.plain W.key renumber' :=
      steady_enumConstant
    refine constants.bind fun constant constant' plain => ?_
    refine (steady_accept (W.settled _)).bind fun more _ same => ?_
    subst same
    split
    · refine (ih (Nat.le_of_succ_le_succ le)).bind fun others others' same => .pure ?_
      rw [List.map_cons, List.map_cons, plain, same]
    · refine steady_endConstants.bind fun _ _ _ => .pure ?_
      rw [List.map_singleton, List.map_singleton, plain]

theorem steady_enumConstants :
    W.Steady 1 enumConstants enumConstants fun as bs =>
      as.map (Member.plain W.key renumber) = bs.map (Member.plain W.key renumber') := by
  have ended : ∀ {m n : Nat}, m ≤ n → W.Steady 1
      (do
        let found ← enumConstantsWithin m
        closeDocs
        return found)
      (do
        let found ← enumConstantsWithin n
        closeDocs
        return found)
      fun (as bs : List Member) =>
        as.map (Member.plain W.key renumber) = bs.map (Member.plain W.key renumber') :=
    fun bound => (steady_enumConstantsWithin bound).bind fun _ _ same =>
      steady_closeDocs.bind fun _ _ _ => .pure same
  refine ⟨fun {us c d c' found} here run inside => ?_⟩
  rw [enumConstants, on_bind_of_ok on_get] at run
  rw [enumConstants, on_bind_of_ok on_get]
  exact (ended (Nat.add_le_add_right here.length_le 1)).follow here run inside

theorem beginsClass_sign (ts : List Token) : beginsClass (ts.map Token.sign) = beginsClass ts := by
  rcases ts with _ | ⟨t, more⟩
  · rfl
  · cases t with
    | keyword word =>
      rcases more with _ | ⟨u, more⟩
      · cases word <;> rfl
      · cases word <;> first | rfl | cases u <;> rfl
    | symbol s =>
      rcases more with _ | ⟨u, more⟩
      · cases s <;> rfl
      · cases u with
        | keyword word => cases s <;> cases word <;> rfl
        | _ => cases s <;> rfl
    | _ => rfl

theorem steady_peek :
    W.Steady 1 peek peek fun t t' => t.map Token.sign = t'.map Token.sign := by
  refine Window.Steady.peeking (fun _ _ => on_peek) (fun _ _ => on_peek)
    fun {us c d} here inside => ?_
  rcases here.head_cases inside with ⟨left, right⟩ | ⟨u, us', rfl⟩
  · rw [left, right]
  · rw [here.left_head, here.right_head]
    exact congrArg some here.sign

theorem steady_classKind : W.Steady 1 classKind classKind Eq := by
  refine steady_peek.andThen (fun _ => by split <;> infer_instance) fun t t' same => ?_
  have word : ∀ word, t = some (.keyword word) ↔ t' = some (.keyword word) :=
    fun word => some_iff same (by simp)
  have atSign : t = some (.symbol .atSign) ↔ t' = some (.symbol .atSign) := some_iff same (by simp)
  split
  · rw [(word _).mp rfl]
    exact steady_advance.bind fun _ _ _ => .pure rfl
  · rw [(word _).mp rfl]
    exact steady_advance.bind fun _ _ _ => .pure rfl
  · rw [(word _).mp rfl]
    exact steady_advance.bind fun _ _ _ => .pure rfl
  · rw [atSign.mp rfl]
    refine steady_advance.bind fun _ _ _ => ?_
    exact ((steady_expectKeyword _).weaken (Nat.zero_le 1)).bind fun _ _ _ => .pure rfl
  · rename_i interface enum record annotation
    split
    · exact absurd ((word _).mpr rfl) interface
    · exact absurd ((word _).mpr rfl) enum
    · exact absurd ((word _).mpr rfl) record
    · exact absurd (atSign.mpr rfl) annotation
    · exact ((steady_expectKeyword _).weaken (Nat.zero_le 1)).bind fun _ _ _ => .pure rfl

variable (kind : ClassKind)

theorem steady_extendsClause : W.Steady 1 (extendsClause kind) (extendsClause kind) Eq := by
  refine (steady_acceptKeyword (W.settled _)).bind fun found _ same => ?_
  subst same
  split
  · split
    · exact (steady_typeRefs .comma).bind fun types _ same => .pure (by rw [same])
    · exact steady_typeRef.bind fun type _ same => .pure (by rw [same])
  · exact .pure rfl

theorem steady_implementsClause : W.Steady 1 implementsClause implementsClause Eq := by
  refine (steady_acceptKeyword (W.settled _)).bind fun found _ same => ?_
  subst same
  split
  · exact steady_typeRefs .comma
  · exact .pure rfl

theorem steady_skipPermits : W.Steady 1 skipPermits skipPermits Eq := by
  refine (steady_acceptWord (W.settled _)).bind fun found _ same => ?_
  subst same
  split
  · exact (steady_typeRefs .comma).bind fun _ _ _ => .pure rfl
  · exact .pure rfl

theorem steady_supertypes : W.Steady 1 (supertypes kind) (supertypes kind) Eq := by
  refine (steady_extendsClause kind).bind fun extended _ same => ?_
  subst same
  refine steady_implementsClause.bind fun implemented _ same => ?_
  subst same
  exact steady_skipPermits.bind fun _ _ _ => .pure rfl

theorem steady_recordComponents :
    W.Steady 1 (recordComponents kind) (recordComponents kind) fun as bs =>
      as.map (Param.plain W.key) = bs.map (Param.plain W.key) := by
  unfold recordComponents
  split
  · exact steady_params
  · exact .pure rfl

/-- A head without the places of the components of a record. -/
def ClassHead.plain (key : String → String) (h : ClassHead) : ClassHead :=
  { h with recordComponents := h.recordComponents.map (Param.plain key) }

theorem steady_classHead :
    W.Steady 1 classHead classHead fun a b => a.plain W.key = b.plain W.key := by
  refine steady_classKind.bind fun kind _ same => ?_
  subst same
  refine (steady_identifier.weaken (Nat.zero_le 1)).bind fun name _ same => ?_
  subst same
  refine steady_typeParams.bind fun typeParams _ same => ?_
  subst same
  refine (steady_recordComponents kind).bind fun components components' plain => ?_
  refine (steady_supertypes kind).bind fun supertypes _ same => .pure ?_
  simp only [ClassHead.plain, plain, same]

theorem steady_leadingConstants :
    W.Steady 1 (leadingConstants kind) (leadingConstants kind) fun as bs =>
      as.map (Member.plain W.key renumber) = bs.map (Member.plain W.key renumber') := by
  unfold leadingConstants
  split
  · exact steady_enumConstants
  · exact .pure rfl

end Heads

section Bodies

variable {W : Window} {member member' : Parser (List Member)} [Onward member]
  {renumber renumber' : ClassId → ClassId}

theorem steady_classStep
    (members : W.Steady 1 member member' fun as bs =>
      as.map (Member.plain W.key renumber) = bs.map (Member.plain W.key renumber')) :
    W.Steady 1 (classStep member) (classStep member') fun a b =>
      a.map (·.map (Member.plain W.key renumber)) =
        b.map (·.map (Member.plain W.key renumber')) := by
  refine (steady_sees .rbrace).bind fun found _ same => ?_
  subst same
  split
  · exact .pure rfl
  · refine steady_expectMore.bind fun _ _ _ => ?_
    exact members.bind fun a b same => .pure (congrArg some same)

theorem steady_classBody (kind : ClassKind)
    (members : W.Steady 1 member member' fun as bs =>
      as.map (Member.plain W.key renumber) = bs.map (Member.plain W.key renumber')) :
    W.Steady 1 (classBody kind member) (classBody kind member') fun as bs =>
      as.map (Member.plain W.key renumber) = bs.map (Member.plain W.key renumber') := by
  have leading : W.Steady 1 (leadingConstants kind) (leadingConstants kind) fun as bs =>
      as.map (Member.plain W.key renumber) = bs.map (Member.plain W.key renumber') :=
    steady_leadingConstants kind
  refine leading.bind fun constants constants' plain => ?_
  refine (steady_many (steady_classStep members)).bind fun others others' same => .pure ?_
  rw [List.map_append, List.map_append, plain, List.map_flatten, List.map_flatten, same]

theorem steady_bracedBody (kind : ClassKind)
    (members : W.Steady 1 member member' fun as bs =>
      as.map (Member.plain W.key renumber) = bs.map (Member.plain W.key renumber')) :
    W.Steady 0 (bracedBody kind member) (bracedBody kind member') fun a b =>
      a.1.map (Member.plain W.key renumber) = b.1.map (Member.plain W.key renumber') := by
  refine steady_nextStart.before fun start start' place => ?_
  refine (steady_expect .lbrace).bind fun _ _ _ => ?_
  refine (steady_raiseDocFloor (W.floor_of_place place)).bind fun _ _ _ => ?_
  refine (steady_classBody kind members).before fun found found' same => ?_
  refine (steady_expect .rbrace).bind fun _ _ _ => ?_
  exact (steady_spanFrom start start').bind fun _ _ _ => .pure same

end Bodies

section Classes

variable {W : Window} {member member' : String → Parser (List Member)}
  [∀ name, Onward (member name)] {modifiers modifiers' : Modifiers} {i j : Nat}
  {doc doc' : Option String}

theorem steady_classOver
    (members : ∀ name, W.Steady 1 (member name) (member' name) fun as bs =>
      as.map (Member.plain W.key W.renumber) = bs.map (Member.plain W.key id))
    (plain : modifiers.plain W.key = modifiers'.plain W.key)
    (docs : doc.map W.key = doc'.map W.key) :
    W.Steady 0 (classOver member modifiers i doc) (classOver member' modifiers' j doc') fun a b =>
      W.renumber a = b := by
  refine steady_classHead.before fun head head' same => ?_
  obtain ⟨kind, name, typeParams, components, supertypes⟩ := head
  obtain ⟨kind', name', typeParams', components', supertypes'⟩ := head'
  simp only [ClassHead.plain, ClassHead.mk.injEq] at same
  obtain ⟨rfl, rfl, rfl, same, rfl⟩ := same
  refine (steady_bracedBody kind (members name)).bind fun body body' others => ?_
  refine steady_closeDocs.bind fun _ _ _ => ?_
  refine (steady_spanFrom i j).bind fun _ _ _ => steady_addClass ?_
  simp only [ClassDecl.plain, plain, docs, same, others]

end Classes

section Members

variable {W : Window} {k : Nat} {us : List (Located × Located)} {c d c' : Cursor}
  {className : String} {modifiers modifiers' : Modifiers} {i j : Nat} {doc doc' : Option String}
  {found : List Member}

/-- A member ends with the window, whatever follows: it is closed by a brace, or by the line break
and what follows it. -/
def Window.Settles (W : Window) : Member → Prop
  | .field _ => W.Quiet
  | .constructor decl | .method decl => decl.body.isSome
  | _ => True

theorem steady_compactConstructor {typeParams : List TypeParam}
    (plain : modifiers.plain W.key = modifiers'.plain W.key)
    (docs : doc.map W.key = doc'.map W.key) :
    W.Steady k (compactConstructor modifiers typeParams i doc)
      (compactConstructor modifiers' typeParams j doc') fun a b =>
      a.plain W.key W.renumber = b.plain W.key id := by
  refine (steady_identifier.weaken (Nat.zero_le k)).bind fun name _ same => ?_
  subst same
  refine (steady_block.weaken (Nat.zero_le k)).bind fun body body' same => ?_
  refine (steady_spanFrom i j).bind fun span span' _ => .pure ?_
  simp only [Member.plain, MethodDecl.plain, plain, docs, Option.map_some, same]

theorem follow_methodOrFields {typeParams : List TypeParam}
    (plain : modifiers.plain W.key = modifiers'.plain W.key)
    (docs : doc.map W.key = doc'.map W.key)
    (settled : 1 ≤ k ∨ W.left.dialect = .java ∨ ∀ m ∈ found, W.Settles m) (here : W.At us c d)
    (run : (methodOrFields modifiers typeParams i doc).on W.left c = .ok (found, c'))
    (inside : W.Inside k c') :
    ∃ found' d' us', (methodOrFields modifiers' typeParams j doc').on W.right d =
      .ok (found', d') ∧
      found.map (Member.plain W.key W.renumber) = found'.map (Member.plain W.key id) ∧
      W.At us' c' d' := by
  unfold methodOrFields at run ⊢
  obtain ⟨type, c₁, run₁, run⟩ := on_bind_eq_ok.mp run
  obtain ⟨name, c₂, run₂, run⟩ := on_bind_eq_ok.mp run
  have inside₂ : W.Inside 0 c₂ :=
    inside.earlier (n := 0) (Onward.length_le run) (Onward.classes run) (Nat.zero_le k)
  have inside₁ : W.Inside 1 c₁ :=
    inside₂.earlier (n := 1) (Eats.eats run₂) (Onward.classes run₂) (Nat.le_refl 1)
  obtain ⟨_, d₁, _, right₁, rfl, there₁⟩ := steady_typeRef.follow here run₁ inside₁
  obtain ⟨_, d₂, us₂, right₂, rfl, there₂⟩ := steady_identifier.follow there₁ run₂ inside₂
  rw [on_bind_of_ok right₁, on_bind_of_ok right₂, on_bind_of_ok (on_sees _)]
  rw [on_bind_of_ok (on_sees _)] at run
  split at run
  · rename_i opens
    obtain ⟨decl, mid, read, ends⟩ := on_bind_eq_ok.mp run
    cases ends
    have ahead : W.Inside 1 c₂ :=
      inside.earlier (n := 1) (Eats.eats read) (Onward.classes read) (by omega)
    rw [there₂.sees_same ahead] at opens
    have body : 1 ≤ k ∨ W.left.dialect = .java ∨ decl.body.isSome :=
      settled.imp_right fun settled => settled.imp_right fun settled =>
        settled (.method decl) List.mem_cons_self
    obtain ⟨decl', d', us', right, same, behind⟩ := follow_methodRest plain docs body there₂ read inside
    refine ⟨[.method decl'], d', us', ?_, ?_, behind⟩
    · rw [if_pos opens, on_bind_of_ok right, on_pure]
    · simp only [List.map_cons, List.map_nil, Member.plain, same]
  · rename_i unopened
    have quiet : 1 ≤ k ∨ W.left.dialect = .java ∨ W.Quiet := by
      refine settled.imp_right fun settled => settled.imp_right fun settled => ?_
      obtain ⟨decl, member⟩ := exists_field_of_fieldRest _ _ _ _ _ run
      exact settled (.field decl) member
    have unopened' : ¬ (d₂.rest.head?.map (·.token) == some (.symbol .lparen)) = true := by
      rcases us₂ with _ | ⟨u, us₂⟩
      · rcases quiet with one | java | quiet
        · rw [← there₂.sees_same (inside.earlier (n := 0) (Onward.length_le run)
            (Onward.classes run) one)]
          exact unopened
        · have := eats_fieldRest modifiers type name i doc java
          rw [← there₂.sees_same (inside.earlier (n := 1) (Eats.eats run) (Onward.classes run)
            (by omega))]
          exact unopened
        · have right : d₂.rest = W.rightTail := there₂.right
          rw [right]
          intro opens
          obtain ⟨t, first, token⟩ := Option.map_eq_some_iff.mp (eq_of_beq opens)
          exact quiet.apart t first (by rw [token]; simp)
      · rw [← there₂.sees_head]
        exact unopened
    obtain ⟨found', d', us', right, same, behind⟩ :=
      (steady_fieldRest plain docs quiet).follow there₂ run inside
    exact ⟨found', d', us', by rw [if_neg unopened', right], same, behind⟩

/-- A member behind its modifiers may end with the window in Java, or if it is settled. -/
theorem follow_typedMember (plain : modifiers.plain W.key = modifiers'.plain W.key)
    (docs : doc.map W.key = doc'.map W.key)
    (settled : 1 ≤ k ∨ W.left.dialect = .java ∨ ∀ m ∈ found, W.Settles m) (here : W.At us c d)
    (run : (typedMember className modifiers i doc).on W.left c = .ok (found, c'))
    (inside : W.Inside k c') :
    ∃ found' d' us', (typedMember className modifiers' j doc').on W.right d = .ok (found', d') ∧
      found.map (Member.plain W.key W.renumber) = found'.map (Member.plain W.key id) ∧
      W.At us' c' d' := by
  unfold typedMember at run ⊢
  obtain ⟨typeParams, c₁, run₁, run⟩ := on_bind_eq_ok.mp run
  rw [on_bind_of_ok (on_upcoming 2)] at run
  have inside₁ : W.Inside 2 c₁ :=
    inside.earlier (n := 2) (EatsTwo.eats run) (Onward.classes run) (by omega)
  obtain ⟨_, d₁, us₁, right₁, rfl, there₁⟩ :=
    steady_typeParams.follow here run₁ (inside₁.weaken (by omega))
  obtain ⟨_, _, _, right₂, signs, _⟩ := (steady_upcoming 2).follow there₁ (on_upcoming 2) inside₁
  rw [on_upcoming] at right₂
  cases right₂
  rw [on_bind_of_ok right₁, on_bind_of_ok (on_upcoming 2)]
  have pair : ∀ s, (c₁.rest.take 2).map (·.token) = [.name className, .symbol s] ↔
      (d₁.rest.take 2).map (·.token) = [.name className, .symbol s] := by
    intro s
    refine Token.map_sign_iff signs fun v member => ?_
    simp only [List.mem_cons, List.not_mem_nil, or_false] at member
    rcases member with rfl | rfl <;> exact nofun
  simp only [pair] at run
  split at run
  · rename_i compact
    rw [if_pos compact]
    obtain ⟨member, mid, read, ends⟩ := on_bind_eq_ok.mp run
    cases ends
    obtain ⟨member', d', us', right, same, behind⟩ :=
      (steady_compactConstructor plain docs).follow there₁ read inside
    refine ⟨[member'], d', us', by rw [on_bind_of_ok right, on_pure], ?_, behind⟩
    rw [List.map_singleton, List.map_singleton, same]
  · rename_i other
    rw [if_neg other]
    split at run
    · rename_i called
      rw [if_pos called]
      obtain ⟨name, c₂, run₂, run⟩ := on_bind_eq_ok.mp run
      obtain ⟨decl, mid, read, ends⟩ := on_bind_eq_ok.mp run
      cases ends
      have inside₂ : W.Inside 0 c₂ :=
        inside.earlier (n := 0) (Onward.length_le read) (Onward.classes read) (Nat.zero_le k)
      obtain ⟨_, d₂, us₂, right₂, rfl, there₂⟩ := steady_identifier.follow there₁ run₂ inside₂
      have body : 1 ≤ k ∨ W.left.dialect = .java ∨ decl.body.isSome :=
        settled.imp_right fun settled => settled.imp_right fun settled =>
          settled (.constructor decl) List.mem_cons_self
      obtain ⟨decl', d', us', right, same, behind⟩ :=
        follow_methodRest plain docs body there₂ read inside
      refine ⟨[.constructor decl'], d', us', ?_, ?_, behind⟩
      · rw [on_bind_of_ok right₂, on_bind_of_ok right, on_pure]
      · simp only [List.map_cons, List.map_nil, Member.plain, same]
    · rename_i plainly
      rw [if_neg plainly]
      exact follow_methodOrFields plain docs settled there₁ run inside

theorem steady_staticWord : W.Steady 2 staticWord staticWord Eq := by
  refine (steady_upcoming 2).bind fun ts ts' signs => ?_
  have pair : ts = [.name "static", .symbol .lbrace] ↔ ts' = [.name "static", .symbol .lbrace] :=
    Token.map_sign_iff signs (by simp)
  refine .ite pair (fun _ => ?_) fun _ => .pure rfl
  exact (steady_advance.weaken (by omega)).bind fun _ _ _ => .pure rfl

/-- Where no block begins, two tokens are asked for, to see that. -/
theorem follow_initializerBlock? {block : Option Member} (here : W.At us c d)
    (run : (initializerBlock? i).on W.left c = .ok (block, c')) (inside : W.Inside 0 c')
    (ahead : block = none → W.Inside 2 c') :
    ∃ block' d' us', (initializerBlock? j).on W.right d = .ok (block', d') ∧
      block.map (Member.plain W.key W.renumber) = block'.map (Member.plain W.key id) ∧
      W.At us' c' d' := by
  obtain ⟨isStatic, mid, first, run⟩ := on_bind_eq_ok.mp run
  rw [on_bind_of_ok (on_sees _)] at run
  have inside' : W.Inside 2 mid := by
    split at run
    · exact inside.earlier (n := 2) (EatsTwo.eats run) (Onward.classes run) (Nat.le_refl 2)
    · cases run
      exact ahead rfl
  obtain ⟨_, mid', us', right, rfl, there⟩ := steady_staticWord.follow here first inside'
  rw [initializerBlock?, on_bind_of_ok right, on_bind_of_ok (on_sees _),
    ← there.sees_same (inside'.weaken (by omega))]
  have blocks : W.Steady 0
      (do
        let _ ← group .lbrace .rbrace
        closeDocs
        return some (.initializer isStatic (← spanFrom i)))
      (do
        let _ ← group .lbrace .rbrace
        closeDocs
        return some (.initializer isStatic (← spanFrom j)))
      fun (a b : Option Member) =>
        a.map (Member.plain W.key W.renumber) = b.map (Member.plain W.key id) :=
    (steady_group rfl rfl).bind fun _ _ _ => steady_closeDocs.bind fun _ _ _ =>
      (steady_spanFrom i j).bind fun _ _ _ => .pure rfl
  split at run
  · rename_i opens
    rw [if_pos opens]
    exact blocks.follow there run inside
  · rename_i unopened
    rw [if_neg unopened]
    cases run
    exact ⟨none, mid', us', rfl, rfl, there⟩

variable {nested nested' : Modifiers → Nat → Option String → Parser ClassId}
  [∀ modifiers start doc, Onward (nested modifiers start doc)]
  [∀ modifiers start doc, EatsTwo W.left (nested modifiers start doc)]

/-- Nested classes are read alike where fewer tokens than the bound are left. -/
def Nests (W : Window) (bound : Nat)
    (nested nested' : Modifiers → Nat → Option String → Parser ClassId) : Prop :=
  ∀ {modifiers modifiers' : Modifiers} {i j : Nat} {doc doc' : Option String}
    {us : List (Located × Located)} {c d c' : Cursor} {number : ClassId},
    modifiers.plain W.key = modifiers'.plain W.key → doc.map W.key = doc'.map W.key →
    c.rest.length < bound → W.At us c d → (nested modifiers i doc).on W.left c = .ok (number, c') →
    W.Inside 0 c' → ∃ number' d' us', (nested' modifiers' j doc').on W.right d = .ok (number', d') ∧
      W.renumber number = number' ∧ W.At us' c' d'

variable {bound : Nat}

theorem follow_declaredMember (nests : Nests W bound nested nested')
    (short : c.rest.length < bound) (place : W.Place i j)
    (settled : 1 ≤ k ∨ W.left.dialect = .java ∨ ∀ m ∈ found, W.Settles m) (here : W.At us c d)
    (run : (declaredMember nested className i).on W.left c = .ok (found, c'))
    (inside : W.Inside k c') :
    ∃ found' d' us', (declaredMember nested' className j).on W.right d = .ok (found', d') ∧
      found.map (Member.plain W.key W.renumber) = found'.map (Member.plain W.key id) ∧
      W.At us' c' d' := by
  unfold declaredMember at run ⊢
  obtain ⟨doc, c₁, run₁, run⟩ := on_bind_eq_ok.mp run
  obtain ⟨modifiers, c₂, run₂, run⟩ := on_bind_eq_ok.mp run
  rw [on_bind_of_ok (on_upcoming 2)] at run
  have inside₂ : W.Inside 2 c₂ :=
    inside.earlier (n := 2) (EatsTwo.eats run) (Onward.classes run) (by omega)
  have inside₁ : W.Inside 1 c₁ :=
    inside₂.earlier (n := 0) (Onward.length_le run₂) (Onward.classes run₂) (by omega)
  obtain ⟨doc', d₁, _, right₁, docs, there₁⟩ := (steady_docBefore place).follow here run₁ inside₁
  obtain ⟨modifiers', d₂, us₂, right₂, plain, there₂⟩ :=
    steady_modifiers.follow there₁ run₂ (inside₂.weaken (by omega))
  obtain ⟨_, _, _, right₃, signs, _⟩ := (steady_upcoming 2).follow there₂ (on_upcoming 2) inside₂
  rw [on_upcoming] at right₃
  cases right₃
  rw [← beginsClass_sign, signs, beginsClass_sign] at run
  rw [on_bind_of_ok right₁, on_bind_of_ok right₂, on_bind_of_ok (on_upcoming 2)]
  split at run
  · rename_i begins
    rw [if_pos begins]
    obtain ⟨number, mid, read, ends⟩ := on_bind_eq_ok.mp run
    cases ends
    have few : c₂.rest.length < bound := by
      have less := Onward.length_le run₁
      have fewer := Onward.length_le run₂
      omega
    obtain ⟨number', d', us', right, same, behind⟩ :=
      nests plain docs few there₂ read (inside.weaken (Nat.zero_le k))
    refine ⟨[.nested number' ⟨j, max d'.lastStop j⟩], d', us', ?_, ?_, behind⟩
    · rw [on_bind_of_ok right]
      rfl
    · simp only [List.map_cons, List.map_nil, Member.plain, same, id_eq]
  · rename_i other
    rw [if_neg other]
    obtain ⟨members, mid, read, ends⟩ := on_bind_eq_ok.mp run
    cases ends
    have inside' : W.Inside k mid := ⟨inside.rest, inside.classes⟩
    obtain ⟨members', d', us', right, same, behind⟩ :=
      follow_typedMember plain docs settled there₂ read inside'
    refine ⟨members', { d' with docFloor := d'.lastStop }, us', ?_, same,
      behind.floored behind.lastStop⟩
    rw [on_bind_of_ok right]
    rfl

theorem follow_memberOver (nests : Nests W bound nested nested')
    (short : c.rest.length < bound)
    (settled : 1 ≤ k ∨ W.left.dialect = .java ∨ ∀ m ∈ found, W.Settles m) (here : W.At us c d)
    (run : (memberOver nested className).on W.left c = .ok (found, c')) (inside : W.Inside k c') :
    ∃ found' d' us', (memberOver nested' className).on W.right d = .ok (found', d') ∧
      found.map (Member.plain W.key W.renumber) = found'.map (Member.plain W.key id) ∧
      W.At us' c' d' := by
  have whole := run
  have once : ∀ modifiers start doc, Eats W.left (nested modifiers start doc) :=
    fun _ _ _ => EatsTwo.once
  rw [memberOver, on_bind_of_ok on_nextStart] at run
  rw [memberOver, on_bind_of_ok on_nextStart]
  have inside' : W.Inside 1 c :=
    inside.earlier (n := 1) (Eats.eats whole) (Onward.classes whole) (by omega)
  obtain ⟨j, _, _, starts, place, _⟩ := steady_nextStart.follow here on_nextStart inside'
  rw [on_nextStart] at starts
  cases starts
  rw [on_bind, on_accept] at run
  split at run
  · rename_i head
    cases run
    obtain ⟨us', right, behind⟩ := here.accept_some inside head
    exact ⟨[], _, us', by rw [on_bind_of_ok right]; rfl, rfl, behind⟩
  · rename_i other
    rw [Except.bind, if_neg Bool.false_ne_true] at run
    rw [on_bind_of_ok (here.accept_none inside' other), if_neg Bool.false_ne_true]
    obtain ⟨block, mid, first, run⟩ := on_bind_eq_ok.mp run
    cases block with
    | some block =>
      cases run
      obtain ⟨_, d', us', right, same, behind⟩ :=
        follow_initializerBlock? here first (inside.weaken (Nat.zero_le k)) nofun
      obtain ⟨block', rfl, plain⟩ := Option.map_eq_some_iff.mp same.symm
      refine ⟨[block'], d', us', by rw [on_bind_of_ok right]; rfl, ?_, behind⟩
      rw [List.map_singleton, List.map_singleton, plain]
    | none =>
      have ahead : W.Inside 2 mid :=
        inside.earlier (n := 2) (EatsTwo.eats run) (Onward.classes run) (by omega)
      obtain ⟨_, d', us', right, same, there⟩ :=
        follow_initializerBlock? here first (ahead.weaken (Nat.zero_le 2)) fun _ => ahead
      rw [Option.map_eq_none_iff.mp same.symm] at right
      rw [on_bind_of_ok right]
      have few : mid.rest.length < bound := Nat.lt_of_le_of_lt (Onward.length_le first) short
      exact follow_declaredMember nests few place settled there run inside

/-- A class with fewer levels of nesting can be read with more. -/
theorem steady_classWithin {m n : Nat} (le : m ≤ n)
    (plain : modifiers.plain W.key = modifiers'.plain W.key)
    (docs : doc.map W.key = doc'.map W.key) :
    W.Steady 0 (classWithin m modifiers i doc) (classWithin n modifiers' j doc') fun a b =>
      W.renumber a = b := by
  induction m generalizing n modifiers modifiers' i j doc doc' with
  | zero => exact .throw
  | succ m ih =>
    obtain ⟨n, rfl⟩ : ∃ n', n = n' + 1 := ⟨n - 1, by omega⟩
    have nests : ∀ bound, Nests W bound (classWithin m) (classWithin n) := by
      intro bound modifiers modifiers' i j doc doc' us c d c' number plain docs _ here run inside
      exact (ih (Nat.le_of_succ_le_succ le) plain docs).follow here run inside
    refine steady_classOver (fun name => ⟨fun {us c d c' found} here run inside => ?_⟩) plain docs
    exact follow_memberOver (nests _) (Nat.lt_succ_self _) (.inl (Nat.le_refl 1)) here run inside

theorem steady_classDecl (plain : modifiers.plain W.key = modifiers'.plain W.key)
    (docs : doc.map W.key = doc'.map W.key) :
    W.Steady 0 (classDecl modifiers i doc) (classDecl modifiers' j doc') fun a b =>
      W.renumber a = b := by
  refine ⟨fun {us c d c' a} here run inside => ?_⟩
  rw [classDecl, on_bind_of_ok on_get] at run
  rw [classDecl, on_bind_of_ok on_get]
  exact (steady_classWithin (Nat.add_le_add_right here.length_le 1) plain docs).follow here run
    inside

end Members

end Parser

end CreatorSynth
