import CreatorSynth.Proofs.Parser.Drawing
import CreatorSynth.Proofs.Parser.Heads

/-! Expressions, statements and arguments of calls that are kept as text: what a parser takes for one
is what it takes for one again, wherever it stands. -/
namespace CreatorSynth
open Text

namespace Piece

variable {pieces front raw : List Piece} {t : Token} {ts : List Token}

/-- Pieces from one token to another one, as the lexer could cut them. -/
structure Tight (pieces : List Piece) : Prop where
  bare : ∀ p ∈ pieces, p.Bare
  first : ∀ p ∈ pieces.head?, ∃ t, p = token t
  last : ∀ p ∈ pieces.getLast?, ∃ t rest, p = token t ∧ p.Stands rest
  tipped : Tipped (pieces.flatMap text)

theorem Raw.tight (raw : Raw pieces) : Tight pieces where
  bare := raw.bare
  first := raw.first
  last := by
    intro p same
    obtain ⟨t, rfl⟩ := raw.last p same
    obtain ⟨front, rfl⟩ := List.getLast?_eq_some_iff.mp same
    exact ⟨t, _, rfl, (allStand_append.mp raw.stand).2.1⟩
  tipped := raw.tipped

theorem tight_token {rest : List Char} (stands : (token t).Stands rest) (plain : t.isDoc = false) :
    Tight [token t] where
  bare := List.forall_mem_singleton.mpr plain
  first := fun _ same => ⟨t, (Option.some.inj same).symm⟩
  last := fun _ same => ⟨t, rest, (Option.some.inj same).symm, Option.some.inj same ▸ stands⟩
  tipped := by
    rw [List.flatMap_singleton]
    exact tipped_of_next? stands plain

namespace Tight

theorem text_ne_nil (tight : Tight pieces) (some : pieces ≠ []) : pieces.flatMap text ≠ [] := by
  obtain ⟨_, _, _, stands⟩ := tight.last _ (List.getLast?_eq_some_getLast some)
  intro none
  exact stands.text_ne_nil (List.flatMap_eq_nil_iff.mp none _ (List.getLast_mem some))

theorem join {first second : List Piece} {g : List Char} (blank : g.all isGapChar = true)
    (before : Tight first) (behind : Tight second) (some : first ≠ []) (some' : second ≠ []) :
    Tight (first ++ gap g :: second) where
  bare := List.forall_mem_append.mpr ⟨before.bare, List.forall_mem_cons.mpr ⟨blank, behind.bare⟩⟩
  first := by
    rw [List.head?_append_of_ne_nil _ some]
    exact before.first
  last := by
    rw [List.getLast?_append_of_ne_nil _ (List.cons_ne_nil _ _), List.getLast?_cons_of_ne_nil some']
    exact behind.last
  tipped := by
    constructor
    · rw [List.flatMap_append, List.head?_append_of_ne_nil _ (before.text_ne_nil some)]
      exact before.tipped.first
    · have text : (gap g :: second).flatMap text = g ++ second.flatMap text := rfl
      rw [List.flatMap_append, text, ← List.append_assoc,
        List.getLast?_append_of_ne_nil _ (behind.text_ne_nil some')]
      exact behind.tipped.last

end Tight

theorem Tight.stopOver (tight : Tight pieces) (some : pieces ≠ []) (start : Nat)
    (passed : Option Nat) : stopOver passed (ahead start pieces) =
      Option.some (start + byteLength (pieces.flatMap text)) := by
  refine stopOver_ahead some (fun p final => ?_) start passed
  obtain ⟨t, _, rfl, _⟩ := tight.last p final
  exact ⟨t, rfl, tight.bare _ (List.mem_of_getLast? final)⟩

end Piece

namespace Parser
open Piece

variable {src : Source} {c c' : Cursor} {before : List Char} {pieces raw more : List Piece}
  {ts : List Token}

theorem at_gaps {gaps : List Piece} (here : At src c before (gaps ++ pieces))
    (blank : ∀ p ∈ gaps, ∃ g, p = gap g) : At src c (before ++ gaps.flatMap text) pieces := by
  induction gaps generalizing before with
  | nil => simpa using here
  | cons piece gaps ih =>
    obtain ⟨⟨g, rfl⟩, others⟩ := List.forall_mem_cons.mp blank
    rw [List.flatMap_cons, ← List.append_assoc]
    exact ih here.gap others

/-- Where the next token begins. -/
def startAt (src : Source) (c : Cursor) : Nat :=
  (c.rest.head?.map (·.start)).getD src.stop

theorem startAt_tight (here : At src c before (raw ++ more)) (known : Tight raw) (some : raw ≠ []) :
    startAt src c = byteLength before := by
  obtain ⟨piece, others, rfl⟩ := List.exists_cons_of_ne_nil some
  obtain ⟨t, rfl⟩ := known.first piece rfl
  have plain : t.isDoc = false := known.bare (.token t) List.mem_cons_self
  rw [startAt, here.rest, List.cons_append, ahead_token _ _ plain]
  rfl

theorem on_cut_tight (here : At src c before (raw ++ more)) (known : Tight raw)
    (some : tokens (raw ++ more) ≠ []) (mid : Cursor) :
    (cut (startAt src c) ((stopOver none (ahead (byteLength before) raw)).getD (startAt src c))).on
      src mid = .ok (String.ofList (raw.flatMap text), mid) := by
  by_cases empty : raw = []
  · subst empty
    obtain ⟨t, ts, head⟩ := List.exists_cons_of_ne_nil some
    obtain ⟨front, back, rfl, none, plain⟩ := exists_token_ahead head
    have start : startAt src c = byteLength (before ++ front.flatMap text) := by
      rw [startAt, here.rest, List.nil_append, ahead_append, ahead_of_tokens_nil _ none,
        ahead_token _ _ plain, byteLength_append]
      rfl
    have whole : src.text = before ++ front.flatMap text ++ [] ++
        (.token t :: back : List Piece).flatMap text := by
      rw [here.text, List.nil_append, List.flatMap_append, List.append_nil, List.append_assoc]
    have cutOut := on_cut_of_text (c := mid) whole
    rw [List.append_nil] at cutOut
    rw [start]
    exact cutOut
  · have stop := known.stopOver empty (byteLength before) none
    have whole : src.text = before ++ raw.flatMap text ++ more.flatMap text := by
      rw [here.text, List.flatMap_append, List.append_assoc]
    rw [stop, startAt_tight here known empty, Option.getD_some, ← byteLength_append, on_cut_of_text whole,
      trim_self known.tipped]

theorem cut_same {start stop : Nat} {found : String}
    (run : (cut start stop).on src c = .ok (found, c')) : c' = c := by
  rw [on_cut] at run
  split at run <;> cases run
  rfl

theorem Standing.stretch {taken : List Located} (standing : Standing src c before pieces)
    (split : c.rest = taken ++ c'.rest) (worded : c'.Worded) :
    ∃ gaps raw more, pieces = gaps ++ raw ++ more ∧ tokens gaps = [] ∧ Raw raw ∧
      At src c (before ++ gaps.flatMap text) (raw ++ more) ∧
      Standing src c' (before ++ (gaps ++ raw).flatMap text) more ∧
      ahead (byteLength (before ++ gaps.flatMap text)) raw = taken := by
  obtain ⟨used, more, rfl, behind, here, final⟩ := standing.past split worded
  obtain ⟨gaps, raw, rfl, blank, first⟩ := exists_token_head used
  have none : tokens gaps = [] := tokens_of_gaps blank
  have there := standing.here
  rw [List.append_assoc] at there
  have ends : ∀ p ∈ raw.getLast?, ∃ t, p = token t := by
    intro p same
    refine final p ?_
    rw [List.getLast?_append, Option.mem_def.mp same]
    rfl
  have stand := (allStand_append.mp (allStand_append.mp standing.stand).1).2
  have known : Raw raw :=
    ⟨fun p member => standing.bare p (by simp [member]), first, ends, stand.alone ends⟩
  rw [ahead_append, ahead_of_tokens_nil _ none, List.nil_append, ← byteLength_append] at here
  exact ⟨gaps, raw, more, rfl, none, known, at_gaps there blank, behind, here⟩

/-- What is cut out of the source, from the next token to the last one passed over, is a text that
is kept, with the tokens passed over. -/
theorem Standing.keeps {taken : List Located} {mid last : Cursor} {found : String}
    (standing : Standing src c before pieces) (split : c.rest = taken ++ c'.rest)
    (worded : c'.Worded) (some : c.rest ≠ [])
    (cutOut : (cut (startAt src c) ((stopOver none taken).getD (startAt src c))).on src mid =
      .ok (found, last)) :
    ∃ used more before', pieces = used ++ more ∧ Standing src c' before' more ∧
      Holds used [rawPieces found] ∧ IsRaw found ∧
      tokens (rawPieces found) = taken.map (·.token) ∧ tokens used = taken.map (·.token) := by
  obtain ⟨gaps, raw, more, rfl, none, known, inner, behind, here⟩ := standing.stretch split worded
  have ahead : tokens (raw ++ more) ≠ [] := by
    rw [← map_token_ahead, ← inner.rest]
    simpa using some
  rw [← here] at cutOut ⊢
  obtain ⟨rfl, _⟩ :=
    Prod.mk.inj (Except.ok.inj (cutOut.symm.trans (on_cut_tight inner known.tight ahead mid)))
  rw [rawPieces_ofList known, map_token_ahead]
  refine ⟨gaps ++ raw, more, _, rfl, behind, ?_, known.isRaw, rfl, ?_⟩
  · exact List.append_nil (gaps ++ raw) ▸ Holds.one gaps raw []
  · rw [tokens_append, none, List.nil_append]

section Expressions

/-- The tokens of an expression, which a semicolon or a closing brace ends. -/
def IsExpression (text : String) : Prop :=
  IsRaw text ∧ depthOver .expression 0 (tokens (rawPieces text)) = some 0

/-- What follows ends an expression. -/
def EndsExpression (ts : List Token) : Prop :=
  ts.head? = some (.symbol .semicolon) ∨ ts.head? = some (.symbol .rbrace)

theorem draws_expression : Draws ts expression fun text raws rest =>
    IsExpression text ∧ raws = [rawPieces text] ∧ ts = tokens (rawPieces text) ++ rest ∧
      EndsExpression rest := by
  refine ⟨fun {src c before pieces found c'} standing same run => ?_⟩
  have worded := (Gives.quiet.gives standing.worded run).1
  rw [expression, on_bind_of_ok on_nextStart] at run
  obtain ⟨passed, through, cutOut⟩ := of_passing (f := fun src c => src.passExpression 0 none c.rest)
    (g := id) run
  obtain ⟨taken, t, others, split, across, stops, rfl⟩ := src.exists_expression standing.java through
  have rest : c'.rest = t :: others := by
    rw [cut_same cutOut]
    rfl
  have some : c.rest ≠ [] := by simp [split]
  rw [← rest] at split
  obtain ⟨used, more, before', rfl, behind, holds, raw, kept, front⟩ :=
    standing.keeps split worded some cutOut
  refine ⟨used, more, before', _, rfl, behind, holds, ⟨raw, kept ▸ across⟩, rfl, ?_, ?_⟩
  · rw [← same, tokens_append, front, kept]
  · rw [EndsExpression, ← behind.map_token, rest]
    exact stops.imp (congrArg Option.some) (congrArg Option.some)

end Expressions

section Statements

/-- A statement through what stands in front of the semicolon, or the brace, that ends it. -/
def IsOpen (pieces : List Piece) : Prop :=
  pieces ≠ [] ∧ depthOver .statement 0 (tokens pieces) = some 0

/-- A statement through the closing brace of its last block. -/
def IsClosed (pieces : List Piece) : Prop :=
  ∃ front, pieces = front ++ [.token (.symbol .rbrace)] ∧
    depthOver .statement 0 (tokens front) = some 1

/-- A statement that is neither a call nor an assignment, kept as text. -/
structure IsStatement (text : String) : Prop where
  raw : IsRaw text
  form : IsOpen (rawPieces text) ∨ IsClosed (rawPieces text)
  kind : StatementHead.ofTokens (tokens (rawPieces text) ++ [.symbol .semicolon]) = .other

theorem ofTokens_closed {front : List Piece} (more : List Token) :
    StatementHead.ofTokens (tokens (front ++ [.token (.symbol .rbrace)]) ++ more) =
      StatementHead.ofTokens (tokens front ++ [.symbol .semicolon]) := by
  rw [tokens_append, List.append_assoc]
  exact ofTokens_end (.inr rfl) (tokens front) more

theorem isStatement_open {found : String} {t : Token} {rest : List Token} (raw : IsRaw found)
    (across : depthOver .statement 0 (tokens (rawPieces found)) = some 0)
    (ends : t = .symbol .semicolon ∨ t = .symbol .rbrace)
    (other : (tokens (rawPieces found) ++ t :: rest).head? ≠ some t)
    (kind : StatementHead.ofTokens (tokens (rawPieces found) ++ t :: rest) = .other) :
    IsStatement found := by
  refine ⟨raw, .inl ⟨fun none => ?_, across⟩, ?_⟩
  · rw [none] at other
    exact other rfl
  · rw [← kind]
    rcases ends with rfl | rfl
    · exact (ofTokens_end (.inl rfl) _ rest).symm
    · exact (ofTokens_end (.inr rfl) _ rest).symm

theorem isStatement_closed {found : String} {front rest : List Token} (raw : IsRaw found)
    (shape : tokens (rawPieces found) = front ++ [.symbol .rbrace])
    (across : depthOver .statement 0 front = some 1)
    (kind : StatementHead.ofTokens (tokens (rawPieces found) ++ rest) = .other) :
    IsStatement found ∧ IsClosed (rawPieces found) := by
  rcases List.eq_nil_or_concat (rawPieces found) with none | ⟨pieces, piece, split⟩
  · rw [none] at shape
    exact absurd shape.symm (List.append_ne_nil_of_right_ne_nil _ (List.cons_ne_nil _ _))
  obtain ⟨t, rfl⟩ := raw.raw.last piece (by simp [split])
  have plain : t.isDoc = false := raw.raw.bare (.token t) (by simp [split])
  rw [List.concat_eq_append] at split
  have same := shape
  rw [split, tokens_append, tokens_token _ plain] at same
  obtain ⟨rfl, last⟩ := List.append_inj' same rfl
  obtain rfl : t = .symbol .rbrace := (List.cons.inj last).1
  have form : IsClosed (rawPieces found) := ⟨pieces, split, across⟩
  refine ⟨⟨raw, .inr form, ?_⟩, form⟩
  rw [split] at kind ⊢
  rw [ofTokens_closed] at kind ⊢
  exact kind

/-- How the tokens of a statement that is kept as text end in a source: with a semicolon, which is
passed over, in front of the brace that ends the block it stands in, or with the brace of its own
last block. -/
inductive EndsWith (text : String) : List Token → List Token → Prop
  | semicolon {rest : List Token} (form : IsOpen (rawPieces text)) :
      EndsWith text (tokens (rawPieces text) ++ .symbol .semicolon :: rest) rest
  | blockEnd {rest : List Token} (form : IsOpen (rawPieces text))
      (ends : rest.head? = some (.symbol .rbrace)) :
      EndsWith text (tokens (rawPieces text) ++ rest) rest
  | closed {rest : List Token} (form : IsClosed (rawPieces text)) :
      EndsWith text (tokens (rawPieces text) ++ rest) rest

/-- What is kept of a statement that begins neither with a semicolon nor with a closing brace. -/
theorem draws_rawStatement
    (begins : ∀ s ∈ [Symbol.semicolon, .rbrace], ts.head? ≠ some (.symbol s))
    (kind : StatementHead.ofTokens (ts.take 5) = .other) :
    Draws ts rawStatement fun text raws rest =>
      IsStatement text ∧ raws = [rawPieces text] ∧ EndsWith text ts rest := by
  refine ⟨fun {src c before pieces found c'} standing same run => ?_⟩
  have worded := (Gives.quiet.gives standing.worded run).1
  rw [rawStatement, on_bind_of_ok on_nextStart] at run
  obtain ⟨⟨stop, passed⟩, through, cutOut⟩ := of_passing
    (f := fun src c => src.passStatement 0 none c.rest) (g := Prod.snd) run
  have after := cut_same cutOut
  rw [ofTokens_take] at kind
  obtain ⟨taken, t, others, split, ⟨across, form⟩ | ⟨across, brace, _, known⟩⟩ :=
    src.exists_statement standing.java through
  · have shape : ts = taken.map (·.token) ++ t.token :: others.map (·.token) := by
      rw [← same, ← standing.map_token, split, List.map_append, List.map_cons]
    have stopped : stop = stopOver none taken := by
      rcases form with ⟨_, known⟩ | ⟨_, known⟩ <;> cases known <;> rfl
    subst stopped
    -- The text ends in front of the token, whether or not it is passed over as well.
    have there : ({ c with rest := t :: others } : Cursor).Worded := by
      refine ⟨fun u member => standing.worded.ahead u ?_, standing.worded.classes⟩
      rw [split]
      exact List.mem_append_right _ member
    have left : c.rest = taken ++ ({ c with rest := t :: others } : Cursor).rest := split
    obtain ⟨used, more, before', rfl, between, holds, raw, kept, front⟩ :=
      standing.keeps left there (by simp [split]) cutOut
    rw [shape, ← kept] at begins kind
    have ends : t.token = .symbol .semicolon ∨ t.token = .symbol .rbrace := form.imp (·.1) (·.1)
    have other : (tokens (rawPieces found) ++ t.token :: others.map (·.token)).head? ≠ some t.token := by
      rcases ends with token | token <;> rw [token] at begins ⊢
      · exact begins .semicolon (by simp)
      · exact begins .rbrace (by simp)
    have statement : IsStatement found := isStatement_open raw (kept ▸ across) ends other kind
    have isOpen : IsOpen (rawPieces found) :=
      ⟨fun none => other (by rw [none]; rfl), kept ▸ across⟩
    rcases form with ⟨semicolon, known⟩ | ⟨brace, known⟩ <;> cases known
    · have next : t :: others = [t] ++ c'.rest := by rw [after]; rfl
      obtain ⟨used', more, rfl, behind, _⟩ := between.past next worded
      have rest : others.map (·.token) = tokens more := by rw [← behind.map_token, after]
      have ended := @EndsWith.semicolon _ (tokens more) isOpen
      rw [← rest, ← semicolon, kept, ← shape, rest] at ended
      exact ⟨used ++ used', more, _, _, (List.append_assoc _ _ _).symm, behind, holds.followed used',
        statement, rfl, ended⟩
    · have behind := between.moved (by rw [after]) worded
      have rest : t.token :: others.map (·.token) = tokens more := by
        rw [← between.map_token]
        rfl
      have ended := @EndsWith.blockEnd _ (tokens more) isOpen (by rw [← rest, brace]; rfl)
      rw [← rest, kept, ← shape, rest] at ended
      exact ⟨used, more, before', _, rfl, behind, holds, statement, rfl, ended⟩
  · cases known
    have rest : c'.rest = others := by rw [after]
    have whole : c.rest = (taken ++ [t]) ++ c'.rest := by
      rw [rest, split, List.append_assoc]
      rfl
    have stopped : some t.stop = stopOver none (taken ++ [t]) := by simp [stopOver]
    rw [stopped] at cutOut
    obtain ⟨used, more, before', rfl, behind, holds, raw, kept, front⟩ :=
      standing.keeps whole worded (by simp [split]) cutOut
    have shape : tokens (rawPieces found) = taken.map (·.token) ++ [.symbol .rbrace] := by
      rw [kept, List.map_append, List.map_singleton, brace]
    have parts : ts = tokens (rawPieces found) ++ tokens more := by
      rw [← same, tokens_append, front, kept]
    obtain ⟨statement, isClosed⟩ := isStatement_closed raw shape across (parts ▸ kind)
    exact ⟨used, more, before', _, rfl, behind, holds, statement, rfl, parts ▸ .closed isClosed⟩

end Statements

section Forward

variable {used : List Piece}

theorem exists_ahead_cons (start : Nat) {t : Token} {ts : List Token} (head : tokens more = t :: ts) :
    ∃ u others, ahead start more = u :: others ∧ u.token = t ∧ others.map (·.token) = ts := by
  have same := map_token_ahead start more
  rw [head] at same
  exact List.map_eq_cons_iff.mp same

/-- A text is kept if what is passed over are its tokens, and more of what stands behind it. -/
theorem takes_passing {α : Type} (f : Source → Cursor → Except ParseError α)
    (g : α → Source.Passed) (stop : α → Option Nat) (known : Tight raw)
    (some : tokens (raw ++ (used ++ more)) ≠ [])
    (through : ∀ {c : Cursor} {before : List Char},
      c.rest = ahead (byteLength before) raw ++
        ahead (byteLength (before ++ raw.flatMap text)) (used ++ more) →
      ∃ a, f src c = .ok a ∧ stop a = stopOver none (ahead (byteLength before) raw) ∧
        (g a).2 = ahead (byteLength (before ++ (raw ++ used).flatMap text)) more) :
    Takes src (do
      let start ← nextStart
      let src ← read
      let c ← get
      let a ← liftM (f src c)
      resume (g a)
      cut start ((stop a).getD start)) (raw ++ used) more
      (· = String.ofList (raw.flatMap text)) := by
  refine ⟨fun {c before} here => ?_⟩
  rw [List.append_assoc] at here
  have rest := here.rest
  rw [ahead_append, ← byteLength_append] at rest
  obtain ⟨a, passed, last, left⟩ := through rest
  let behind : Cursor := { c with rest := (g a).2, lastStop := (g a).1.getD c.lastStop }
  have cutOut := on_cut_tight here known some behind
  rw [← last] at cutOut
  refine ⟨_, behind, before ++ (raw ++ used).flatMap text, ?_, ⟨?_, left⟩, rfl⟩
  · rw [on_bind_of_ok on_nextStart, on_bind_of_ok on_read, on_bind_of_ok on_get, passed,
      on_bind_of_ok (on_liftExcept _), on_bind_of_ok (on_resume _)]
    exact cutOut
  · rw [here.text, List.flatMap_append, List.flatMap_append, List.flatMap_append, List.append_assoc,
      List.append_assoc]

theorem takes_expression (java : src.dialect = .java) {found : String} (known : IsExpression found)
    (ends : EndsExpression (tokens more)) :
    Takes src expression (rawPieces found) more (· = found) := by
  obtain ⟨raw, across⟩ := known
  obtain ⟨t, ts, head, stops⟩ : ∃ t ts, tokens ([] ++ more) = t :: ts ∧
      (t = .symbol .semicolon ∨ t = .symbol .rbrace) := by
    rcases ends with head | head <;> obtain ⟨ts, shape⟩ := List.head?_eq_some_iff.mp head
    · exact ⟨_, ts, shape, .inl rfl⟩
    · exact ⟨_, ts, shape, .inr rfl⟩
  have some : tokens (rawPieces found ++ ([] ++ more)) ≠ [] := by
    rw [tokens_append, head]
    exact List.append_ne_nil_of_right_ne_nil _ (List.cons_ne_nil _ _)
  have takes : Takes src expression (rawPieces found ++ []) more _ :=
    takes_passing (fun src c => src.passExpression 0 none c.rest) id (·.1) raw.raw.tight some
      fun {c before} rest => by
      obtain ⟨u, others, left, rfl, _⟩ := exists_ahead_cons
        (byteLength (before ++ (rawPieces found).flatMap text)) head
      refine ⟨(stopOver none (ahead (byteLength before) (rawPieces found)), u :: others), ?_, rfl, ?_⟩
      · rw [rest, left, Source.passExpression_over java (by rwa [map_token_ahead]),
          Source.passExpression_java java, if_pos]
        rcases stops with token | token <;> rw [token] <;> rfl
      · rw [List.append_nil, ← left]
        rfl
  rw [List.append_nil, raw.whole, String.ofList_toList] at takes
  exact takes

/-- A statement is kept through what stands in front of its semicolon. -/
theorem takes_rawStatement_open (java : src.dialect = .java) (known : Tight raw)
    (across : depthOver .statement 0 (tokens raw) = some 0) :
    Takes src rawStatement (raw ++ [.token (.symbol .semicolon)]) more
      (· = String.ofList (raw.flatMap text)) := by
  have some : tokens (raw ++ ([.token (.symbol .semicolon)] ++ more)) ≠ [] := by
    rw [tokens_append]
    exact List.append_ne_nil_of_right_ne_nil _ (List.cons_ne_nil _ _)
  refine takes_passing (fun src c => src.passStatement 0 none c.rest) Prod.snd (·.1) known some
    fun {c before} rest => ?_
  let stop := byteLength (before ++ raw.flatMap text)
  refine ⟨(stopOver none (ahead (byteLength before) raw), Option.some (stop + 1),
    ahead (stop + 1) more), ?_, rfl, ?_⟩
  · rw [rest, Source.passStatement_over java (by rwa [map_token_ahead])]
    exact Source.passStatement_java java
  · rw [List.flatMap_append, ← List.append_assoc, byteLength_append (before ++ _)]
    rfl

/-- A statement is kept through its last brace, if nothing continues it. -/
theorem takes_rawStatement_closed (java : src.dialect = .java) (known : Tight raw)
    (form : IsClosed raw) (other : Token.continuesBlock (tokens more).head? = false) :
    Takes src rawStatement raw more (· = String.ofList (raw.flatMap text)) := by
  obtain ⟨front, rfl, across⟩ := form
  have some : tokens (front ++ [.token (.symbol .rbrace)] ++ ([] ++ more)) ≠ [] := by
    rw [List.append_assoc, tokens_append]
    exact List.append_ne_nil_of_right_ne_nil _ (List.cons_ne_nil _ _)
  have takes : Takes src rawStatement (front ++ [.token (.symbol .rbrace)] ++ []) more _ :=
    takes_passing (fun src c => src.passStatement 0 none c.rest) Prod.snd (·.1) known some
      fun {c before} rest => by
      let stop := byteLength (before ++ (front ++ [token (.symbol .rbrace)]).flatMap text)
      have last := known.stopOver (by simp) (byteLength before) none
      rw [← byteLength_append] at last
      refine ⟨(Option.some stop, Option.some stop, ahead stop more), ?_, last.symm, ?_⟩
      · rw [rest, ahead_append, List.append_assoc,
          Source.passStatement_over java (by rwa [map_token_ahead])]
        have next : (ahead stop more).head?.map (·.token) = (tokens more).head? := by
          rw [← List.head?_map, map_token_ahead]
        have ended : Ends.statement 1 (.symbol .rbrace) ((ahead stop more).head?.map (·.token)) =
            true := by
          rw [next, Ends.statement, other]
          rfl
        have place : byteLength before + byteLength (front.flatMap text) +
            byteLength Symbol.rbrace.text.toList = stop := by
          simp [stop, byteLength_append, text, Token.text, Nat.add_assoc]
        rw [ahead_symbol, List.nil_append, ahead_nil, List.singleton_append, place]
        exact (Source.passStatement_java java).trans (if_pos ended)
      · rw [List.append_nil]
  rw [List.append_nil] at takes
  exact takes

end Forward

section Arguments

/-- The tokens of an argument of a call, which a comma or a closing parenthesis ends. -/
def IsArgument (text : String) : Prop :=
  IsRaw text ∧ depthOver .argument 0 (tokens (rawPieces text)) = some 0

theorem cut_keeps {group : List Piece} {stop : Nat} {found : String} {mid last : Cursor}
    {rest : List Char} (whole : src.text = before ++ group.flatMap text ++ rest)
    (bare : ∀ p ∈ group, p.Bare) (stand : AllStand group rest)
    (place : stop = byteLength (before ++ group.flatMap text))
    (cutOut : (cut (byteLength before) stop).on src mid = .ok (found, last)) :
    IsRaw found ∧ tokens (rawPieces found) = tokens group ∧ Holds group [rawPieces found] := by
  obtain ⟨front, raw, back, rfl, known, same, trimmed⟩ := stand.exists_raw bare
  rw [place, on_cut_of_text whole, trimmed] at cutOut
  cases cutOut
  rw [rawPieces_ofList known]
  exact ⟨known.isRaw, same, .one front raw back⟩

/-- The tokens of arguments with commas between them. -/
def argumentTokens (args : List String) : List Token :=
  tokens (separatedBy [token (.symbol .comma)] (args.map rawPieces))

theorem argumentTokens_cons {a : String} {others : List String} (some : others ≠ []) :
    argumentTokens (a :: others) =
      tokens (rawPieces a) ++ .symbol .comma :: argumentTokens others := by
  obtain ⟨b, others, rfl⟩ := List.exists_cons_of_ne_nil some
  simp only [argumentTokens, List.map_cons, separatedBy, List.flatMap_cons, List.cons_append,
    List.nil_append]
  rw [tokens_append, tokens_symbol]

theorem exists_arguments {bounds : List (Nat × Nat)} {closing : Located} {rest : List Located}
    {texts : List String} {mid last : Cursor} (whole : src.text = before ++ pieces.flatMap text)
    (bare : ∀ p ∈ pieces, p.Bare) (stand : AllStand pieces [])
    (found : callArguments 0 (byteLength before) (ahead (byteLength before) pieces) =
      some (bounds, closing, rest))
    (cuts : (bounds.mapM fun bound => cut bound.1 bound.2).on src mid = .ok (texts, last)) :
    ∃ used more, pieces = used ++ more ∧
      rest = ahead (byteLength (before ++ used.flatMap text)) more ∧
      (∀ a ∈ texts, IsArgument a) ∧ Holds used (texts.map rawPieces) ∧
      texts ≠ [] ∧ tokens used = argumentTokens texts ++ [.symbol .rparen] := by
  induction bounds generalizing before pieces texts mid with
  | nil =>
    obtain ⟨_, _, _, _, _, ⟨_, known⟩ | ⟨_, ⟨_, _⟩, _, known⟩⟩ := exists_argument found <;>
      cases known
  | cons bound bounds ih =>
    obtain ⟨taken, t, others, split, across, form⟩ := exists_argument found
    obtain ⟨group, more, rfl, rfl, start, stop, rfl⟩ := exists_ahead_token split
    rw [map_token_ahead] at across
    rw [← byteLength_append] at start
    rw [List.mapM_cons] at cuts
    obtain ⟨a, between, first, cuts⟩ := on_bind_eq_ok.mp cuts
    obtain ⟨as, between', later, same⟩ := on_bind_eq_ok.mp cuts
    cases same
    have split : src.text = before ++ group.flatMap text ++
        (token t.token :: more : List Piece).flatMap text := by
      rw [whole, List.flatMap_append, List.append_assoc]
    have bound : bound = (byteLength before, t.start) := by
      rcases form with ⟨_, known⟩ | ⟨_, ⟨_, _⟩, _, known⟩ <;> cases known <;> rfl
    subst bound
    obtain ⟨raw, same, holds⟩ := cut_keeps split
      (fun p member => bare p (List.mem_append_left _ member))
      (by simpa using (allStand_append.mp stand).1) start first
    have known : IsArgument a := ⟨raw, same ▸ across⟩
    have place : t.stop = byteLength (before ++ (group ++ [token t.token]).flatMap text) := by
      rw [stop, start, List.flatMap_append, ← List.append_assoc, byteLength_append (before ++ _)]
      simp [text]
    rcases form with ⟨paren, found⟩ | ⟨comma, ⟨others, _⟩, behind, found⟩
    · cases found
      cases later
      refine ⟨group ++ [token closing.token], more, by simp, by rw [place],
        List.forall_mem_singleton.mpr known, holds.followed _, List.cons_ne_nil _ _, ?_⟩
      have alone : argumentTokens [a] = tokens (rawPieces a) :=
        congrArg tokens (List.append_nil (rawPieces a))
      rw [paren, tokens_append, ← same, ← alone]
      rfl
    · cases found
      rw [place] at behind
      obtain ⟨used, left, rfl, behind, each, inner, some, shape⟩ := ih
        (by rw [whole]; simp [text])
        (fun p member => bare p (by simp [member]))
        ((allStand_append.mp stand).2.2) behind later
      refine ⟨group ++ [token t.token] ++ used, left, by simp, ?_,
        List.forall_mem_cons.mpr ⟨known, each⟩, ?_, List.cons_ne_nil _ _, ?_⟩
      · rw [behind, List.append_assoc before, ← List.flatMap_append]
      · exact (holds.followed _).append inner
      · rw [argumentTokens_cons some, same, comma, tokens_append, tokens_append, shape,
          List.append_assoc, List.append_assoc]
        rfl

theorem Standing.opened {s : Symbol} (standing : Standing src c before pieces)
    (head : c.rest.head?.map (·.token) = some (.symbol s)) :
    ∃ front more paren, pieces = (front ++ [token (.symbol s)]) ++ more ∧ tokens front = [] ∧
      Standing src c.next paren more ∧
      (c.rest.head?.map (·.start)).getD src.stop + byteLength s.text.toList = byteLength paren := by
  obtain ⟨u, symbol, opened⟩ := Cursor.Moves.next_of_head head
  have split : ahead _ pieces = [] ++ u :: c.next.rest := standing.here.rest.symm.trans opened.rest
  obtain ⟨front, more, rfl, none, start, stop, rest⟩ := exists_ahead_token split
  have none : tokens front = [] := by rw [← map_token_ahead (byteLength before), none, List.map_nil]
  rw [symbol] at standing ⊢
  have place : byteLength (before ++ (front ++ [token (.symbol s)]).flatMap text) = u.stop := by
    rw [stop, start, symbol]
    simp [text, Token.text, byteLength_append, Nat.add_assoc]
  refine ⟨front, more, before ++ (front ++ [token (.symbol s)]).flatMap text, by simp, none, ?_, ?_⟩
  · have next : advance.on src c = .ok (⟨⟩, c.next) := on_advance
    refine Standing.behind (by simpa using standing) ?_ (Gives.quiet.gives standing.worded next).1
    rw [place]
    exact rest.symm
  · rw [place, stop, opened.rest, symbol]
    rfl

theorem draws_callArgs : Draws ts callArgs fun args raws rest =>
    args ≠ [""] ∧ (∀ a ∈ args, IsArgument a) ∧ raws = args.map rawPieces ∧
      ts = .symbol .lparen :: (argumentTokens args ++ .symbol .rparen :: rest) := by
  refine ⟨fun {src c before pieces args c'} standing same run => ?_⟩
  have worded := (Gives.quiet.gives standing.worded run).1
  rw [on_callArgs] at run
  split at run
  · rename_i head
    obtain ⟨front, more, paren, rfl, none, opened, first⟩ := standing.opened head
    have first : (c.rest.head?.map (·.start)).getD src.stop + 1 = byteLength paren := first
    rw [opened.here.rest, first] at run
    split at run
    · cases run
    · rename_i bounds closing others found
      cases cuts : (bounds.mapM fun bound => cut bound.1 bound.2).on src c.next with
      | error e =>
        rw [cuts] at run
        cases run
      | ok answer =>
        obtain ⟨texts, last⟩ := answer
        obtain ⟨used, behind, rfl, place, known, holds, _, shape⟩ := exists_arguments
          opened.here.text opened.bare opened.stand found cuts
        rw [cuts] at run
        have after : c' = { c.next with rest := others, lastStop := closing.stop } ∧
            args = if texts = [""] then [] else texts := by
          rw [on_mapM_cut cuts] at run
          cases run
          exact ⟨rfl, rfl⟩
        obtain ⟨after, rfl⟩ := after
        have between : Standing src c' _ _ := opened.behind (by rw [after, place]) worded
        have whole : ts = .symbol .lparen :: (argumentTokens texts ++ .symbol .rparen :: tokens behind) := by
          rw [← same, tokens_append, tokens_append, tokens_append, none, shape,
            List.append_assoc, List.append_assoc]
          rfl
        rw [← List.append_assoc]
        by_cases empty : texts = [""]
        · rw [if_pos empty]
          rw [empty] at whole
          exact ⟨_, behind, _, [], rfl, between, .nil _, (List.cons_ne_nil _ _).symm,
            List.forall_mem_nil _, rfl, whole⟩
        · rw [if_neg empty]
          exact ⟨_, behind, _, _, rfl, between, holds.skips _, empty, known, rfl, whole⟩
  · cases run

theorem callArguments_text (before : List Char) {a : String} {lead : List Piece} (s : Symbol)
    (more : List Piece) (none : tokens lead = []) (known : IsArgument a) :
    let place := byteLength (before ++ (lead ++ rawPieces a).flatMap text)
    callArguments 0 (byteLength before)
        (ahead (byteLength before) (lead ++ rawPieces a ++ token (.symbol s) :: more)) =
      callArguments 0 (byteLength before) (⟨.symbol s, place, place + byteLength s.text.toList⟩ ::
        ahead (place + byteLength s.text.toList) more) := by
  rw [ahead_append, ← byteLength_append, ahead_symbol, callArguments_over]
  rw [map_token_ahead, tokens_append, none, List.nil_append, known.2]

theorem on_cut_argument {a : String} {lead : List Piece} {rest : List Char}
    (blank : ∀ c ∈ lead.flatMap text, isBlank c = true) (known : IsArgument a)
    (whole : src.text = before ++ (lead ++ rawPieces a).flatMap text ++ rest) (c : Cursor) :
    (cut (byteLength before) (byteLength (before ++ (lead ++ rawPieces a).flatMap text))).on src c =
      .ok (a, c) := by
  have trimmed := @trim_of_tipped _ _ [] known.1.raw.tight.tipped blank nofun
  rw [List.append_nil, ← List.flatMap_append] at trimmed
  rw [on_cut_of_text whole, trimmed, known.1.whole, String.ofList_toList]

end Arguments

end Parser

end CreatorSynth
