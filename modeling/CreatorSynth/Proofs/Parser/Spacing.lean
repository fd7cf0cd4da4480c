import CreatorSynth.Proofs.Parser.Steady.Units
import CreatorSynth.Proofs.Printer.Fixpoint

/-! In Java the white space between the tokens of a source makes no difference to what is declared
in it: sources with the same tokens are accepted together, and differ at most in places and in the
blanks of the texts that are kept. -/
namespace CreatorSynth
open Text

/-- The tokens of a text, if it is cut into tokens. -/
def tokenSequence (text : String) : Option (List Token) :=
  (tokenize text).toOption.map (·.map (·.token))

/-- A text by its tokens. One that is not cut into tokens stays as it is. -/
def byTokens (encode : List Token → String) (text : String) : String :=
  (tokenSequence text).elim text encode

namespace Piece

variable {pieces : List Piece} {start i j k l : Nat}

/-- The offset is one between two pieces, with so many tokens in front of it. -/
def Behind (pieces : List Piece) (k i : Nat) : Prop :=
  ∃ front back, pieces = front ++ back ∧ (tokens front).length = k ∧
    byteLength (front.flatMap text) = i

theorem behind_zero : Behind pieces 0 0 :=
  ⟨[], pieces, rfl, rfl, rfl⟩

theorem exists_split_of_ahead {t : Located} (found : (ahead start pieces)[k]? = some t) :
    ∃ front back, pieces = front ++ token t.token :: back ∧ t.token.isDoc = false ∧
      (tokens front).length = k ∧ start + byteLength (front.flatMap text) = t.start ∧
      t.stop = t.start + byteLength t.token.text.toList := by
  obtain ⟨inside, rfl⟩ := List.getElem?_eq_some_iff.mp found
  have among : (ahead start pieces)[k] ∈ ahead start pieces := List.getElem_mem inside
  have split : ahead start pieces =
      (ahead start pieces).take k ++
        (ahead start pieces)[k] :: (ahead start pieces).drop (k + 1) := by
    rw [← List.drop_eq_getElem_cons inside, List.take_append_drop]
  obtain ⟨front, back, whole, before, begins, stop, _⟩ := exists_ahead_token split
  refine ⟨front, back, whole, isDoc_of_mem_ahead among, ?_, begins.symm, stop⟩
  rw [← map_token_ahead start, before, List.length_map, List.length_take]
  omega

theorem behind_start {t : Located} (found : (ahead 0 pieces)[k]? = some t) :
    Behind pieces k t.start := by
  obtain ⟨front, back, rfl, _, count, before, _⟩ := exists_split_of_ahead found
  exact ⟨front, _, rfl, count, by rw [← before, Nat.zero_add]⟩

theorem behind_stop {t : Located}
    (found : (ahead 0 pieces)[k]? = some t) : Behind pieces (k + 1) t.stop := by
  obtain ⟨front, back, rfl, notDoc, count, before, stop⟩ := exists_split_of_ahead found
  refine ⟨front ++ [token t.token], back, by simp, ?_, ?_⟩
  · rw [tokens_append, tokens_token _ notDoc, List.length_append, count]
    rfl
  · rw [List.flatMap_append, byteLength_append, List.flatMap_singleton, text, stop, ← before,
      Nat.zero_add]

theorem behind_end :
    Behind pieces (tokens pieces).length (((ahead 0 pieces).getLast?.map (·.stop)).getD 0) := by
  have count := congrArg List.length (map_token_ahead 0 pieces)
  rw [List.length_map] at count
  rw [List.getLast?_eq_getElem?, count]
  cases more : (tokens pieces).length with
  | zero => rw [List.getElem?_eq_none (by omega)]; exact behind_zero
  | succ n =>
    have last : n < (ahead 0 pieces).length := by omega
    rw [Nat.add_sub_cancel, List.getElem?_eq_getElem last]
    exact behind_stop (List.getElem?_eq_getElem last)

/-- Between two such offsets stand the tokens counted by the second one and not by the first. -/
theorem exists_raw_between (stand : AllStand pieces []) (bare : ∀ p ∈ pieces, p.Bare)
    (first : Behind pieces k i) (second : Behind pieces l j) :
    ∃ cs raw, slice? (pieces.flatMap text) i (max j i) = some cs ∧ Raw raw ∧
      trim cs = raw.flatMap text ∧ tokens raw = ((tokens pieces).take l).drop k := by
  obtain ⟨front, back, rfl, rfl, rfl⟩ := first
  obtain ⟨front', back', whole, rfl, rfl⟩ := second
  rcases List.append_eq_append_iff.mp whole with ⟨middle, rfl, rfl⟩ | ⟨middle, rfl, rfl⟩
  · have inner := (allStand_append.mp (allStand_append.mp stand).2).1
    have among : ∀ p ∈ middle, p.Bare := fun p member => bare p (by simp [member])
    obtain ⟨_, raw, _, _, kept, same, cut⟩ := inner.exists_raw among
    refine ⟨middle.flatMap text, raw, ?_, kept, cut, ?_⟩
    · rw [List.flatMap_append, List.flatMap_append, List.flatMap_append, byteLength_append,
        Nat.max_eq_left (Nat.le_add_right _ _), ← List.append_assoc]
      exact slice?_append _ _ _
    · rw [whole, tokens_append (front ++ middle), List.take_left, tokens_append, List.drop_left,
        same]
  · refine ⟨[], [], ?_, .nil, rfl, ?_⟩
    · rw [List.flatMap_append, List.flatMap_append, byteLength_append,
        Nat.max_eq_right (Nat.le_add_right _ _)]
      simpa [byteLength] using
        slice?_append (front'.flatMap text ++ middle.flatMap text) [] (back.flatMap text)
    · rw [tokens_append front', List.length_append, List.drop_eq_nil_of_le]
      · rfl
      · rw [List.length_take]
        omega

theorem Raw.map_token_locate {raw : List Piece} (kept : Raw raw) :
    (locate start raw).map (·.token) = tokens raw :=
  Piece.map_token_locate (fun s member => by cases kept.bare _ member) start

theorem Raw.tokenSequence {raw : List Piece} (kept : Raw raw) :
    tokenSequence (String.ofList (raw.flatMap text)) = some (tokens raw) := by
  rw [CreatorSynth.tokenSequence, tokenize, String.toList_ofList,
    all_eq_ok_iff.mpr ⟨rfl, kept.stand⟩, ← kept.map_token_locate]
  rfl

theorem Raw.text_eq_empty_iff {raw : List Piece} (kept : Raw raw) :
    String.ofList (raw.flatMap text) = "" ↔ tokens raw = [] := by
  cases raw with
  | nil => simp [tokens]
  | cons piece raw =>
    obtain ⟨t, rfl⟩ := kept.first piece rfl
    refine iff_of_false (fun empty => ?_) ?_
    · have none := congrArg String.toList empty
      rw [String.toList_ofList] at none
      cases eq_nil_of_allStand kept.stand none
    · rw [tokens_token _ (kept.bare _ List.mem_cons_self)]
      exact List.cons_ne_nil _ _

theorem Raw.sameText {raw raw' : List Piece} (kept : Raw raw) (kept' : Raw raw')
    (same : tokens raw = tokens raw') (encode : List Token → String) :
    SameText (byTokens encode) (String.ofList (raw.flatMap text))
      (String.ofList (raw'.flatMap text)) where
  key := by rw [byTokens, byTokens, kept.tokenSequence, kept'.tokenSequence, same]; rfl
  empty := by rw [kept.text_eq_empty_iff, kept'.text_eq_empty_iff, same]

end Piece

namespace Parser
open Piece Located

section Spacing

variable {text text' : String} {located located' : List Located} {pieces pieces' : List Piece}

/-- The pieces of a source without comments. -/
structure Pieced (text : String) (pieces : List Piece) : Prop where
  whole : pieces.flatMap Piece.text = text.toList
  stand : AllStand pieces []
  bare : ∀ p ∈ pieces, p.Bare

theorem exists_pieced (free : CommentFree text) (tokens : tokenize text = .ok located) :
    ∃ pieces, Pieced text pieces ∧ located = locate 0 pieces := by
  obtain ⟨pieces, whole, stand, rfl⟩ := exists_pieces_of_tokenize tokens
  rw [CommentFree, rawPieces_of_whole whole stand] at free
  exact ⟨pieces, ⟨whole, stand, free⟩, rfl⟩

namespace Pieced

variable (pieced : Pieced text pieces)

include pieced

theorem docs : (sourceOf text .java (locate 0 pieces)).docs = [] := by
  refine List.filter_eq_nil_iff.mpr fun t member doc => ?_
  have plain : t.token.isDoc = false := pieced.bare _ (mem_of_mem_locate member)
  rw [plain] at doc
  cases doc

theorem tokenize : tokenize text = .ok (locate 0 pieces) := by
  rw [CreatorSynth.tokenize, all_eq_ok_iff.mpr ⟨pieced.whole, pieced.stand⟩]

theorem tokenSequence : tokenSequence text = some (Piece.tokens pieces) := by
  rw [CreatorSynth.tokenSequence, pieced.tokenize]
  refine congrArg some (map_token_locate (fun s member => ?_) 0)
  cases pieced.bare _ member

end Pieced

/-- Two sources without comments and with the same tokens, side by side. -/
def Window.spaced (encode : List Token → String) (pieced : Pieced text pieces)
    (pieced' : Pieced text' pieces') (same : tokens pieces = tokens pieces') (limit : Nat) :
    Window where
  left := sourceOf text .java (locate 0 pieces)
  right := sourceOf text' .java (locate 0 pieces')
  leftTail := []
  rightTail := []
  Place i j := ∃ k, Behind pieces k i ∧ Behind pieces' k j
  Floor _ _ := True
  leftBase := []
  rightBase := []
  renumber i := i
  key := byTokens encode
  limit := limit
  dialect := rfl
  longer := Nat.le_refl .zero
  ends _ _ := ⟨_, behind_end, same ▸ behind_end⟩
  floor_of_place _ := trivial
  cut := by
    rintro i j i' j' cs ⟨k, left, right⟩ ⟨l, left', right'⟩ found
    obtain ⟨ds, raw, split, kept, trimmed, inside⟩ :=
      exists_raw_between pieced.stand pieced.bare left left'
    obtain ⟨ds', raw', split', kept', trimmed', inside'⟩ :=
      exists_raw_between pieced'.stand pieced'.bare right right'
    rw [pieced.whole] at split
    rw [pieced'.whole] at split'
    obtain rfl : ds = cs := Option.some.inj (split.symm.trans found)
    refine ⟨ds', split', ?_⟩
    rw [trimmed, trimmed']
    exact kept.sameText kept' (by rw [inside, inside', same]) encode
  breaks _ _ found := found
  doc _ _ := by rw [docAt, docAt, pieced.docs, pieced'.docs]; rfl
  renumbered _ _ := rfl
  unequal := nofun

theorem at_start_spaced {encode : List Token → String} (pieced : Pieced text pieces)
    (pieced' : Pieced text' pieces') (same : tokens pieces = tokens pieces') (limit : Nat) :
    (Window.spaced encode pieced pieced' same limit).At ((ahead 0 pieces).zip (ahead 0 pieces'))
      (start (locate 0 pieces)) (start (locate 0 pieces')) := by
  have lengths : (ahead 0 pieces).length = (ahead 0 pieces').length := by
    have count := congrArg List.length same
    rwa [← map_token_ahead 0, ← map_token_ahead 0, List.length_map, List.length_map] at count
  refine ⟨?_, ?_, fun u member => ?_, ?_, .inl ⟨rfl, rfl⟩, trivial, trivial,
    [], [], rfl, rfl, rfl⟩
  · rw [List.map_fst_zip (Nat.le_of_eq lengths)]
    exact (List.append_nil _).symm
  · rw [List.map_snd_zip (Nat.le_of_eq lengths.symm)]
    exact (List.append_nil _).symm
  · obtain ⟨k, found⟩ := List.mem_iff_getElem?.mp member
    obtain ⟨left, right⟩ := List.getElem?_zip_eq_some.mp found
    have token : u.1.token = u.2.token := by
      have kinds := congrArg (·[k]?) same
      simp only [← map_token_ahead 0, List.getElem?_map, left, right] at kinds
      exact Option.some.inj kinds
    obtain ⟨_, _, _, _, _, _, stop⟩ := exists_split_of_ahead left
    obtain ⟨_, _, _, _, _, _, stop'⟩ := exists_split_of_ahead right
    exact ⟨congrArg Token.sign token,
      ⟨k, behind_start left, behind_start right⟩,
      ⟨k + 1, behind_stop left, behind_stop right⟩, stop, stop'⟩
  · have left : InOrder (((ahead 0 pieces).zip (ahead 0 pieces')).map (·.1)) := by
      rw [List.map_fst_zip (Nat.le_of_eq lengths)]
      exact (inOrder_locate 0 pieces).filter _
    have right : InOrder (((ahead 0 pieces).zip (ahead 0 pieces')).map (·.2)) := by
      rw [List.map_snd_zip (Nat.le_of_eq lengths.symm)]
      exact (inOrder_locate 0 pieces').filter _
    exact (List.pairwise_map.mp left).and (List.pairwise_map.mp right)

end Spacing

end Parser

section Spacing

variable {text text' : String} (free : CommentFree text) (free' : CommentFree text')
  (same : tokenSequence text = tokenSequence text') (encode : List Token → String)

include free free' same

theorem exists_parseUnit_of_spacing {u : CompilationUnit}
    (accepted : parseUnit text .java = .ok u) :
    ∃ v, parseUnit text' .java = .ok v ∧
      u.plain (byTokens encode) id = v.plain (byTokens encode) id := by
  obtain ⟨located, c, tokens, read⟩ := parseUnit_eq_ok.mp accepted
  obtain ⟨pieces, pieced, rfl⟩ := Parser.exists_pieced free tokens
  rw [pieced.tokenSequence] at same
  obtain ⟨located', tokens'⟩ : ∃ located, tokenize text' = .ok located := by
    rw [tokenSequence] at same
    cases cut : tokenize text' with
    | ok located => exact ⟨located, rfl⟩
    | error e =>
      rw [cut] at same
      cases same
  obtain ⟨pieces', pieced', rfl⟩ := Parser.exists_pieced free' tokens'
  rw [pieced'.tokenSequence, Option.some.injEq] at same
  let W := Parser.Window.spaced encode pieced pieced' same c.classes.length
  have inside : W.Inside 1 c := ⟨.inl ⟨rfl, rfl⟩, Nat.le_refl _⟩
  obtain ⟨v, c', us, read', alike, _⟩ := (Parser.steady_unit (W := W) rfl rfl).follow
    (Parser.at_start_spaced pieced pieced' same _) read inside
  exact ⟨v, parseUnit_eq_ok.mpr ⟨_, c', tokens', read'⟩, alike⟩

/-- Of two sources without comments and with the same tokens, both or neither is accepted in Java,
and what is declared in them differs at most in places and in the blanks of the texts that are
kept. -/
theorem parseUnit_of_same_tokens :
    (parseUnit text .java).toOption.map (CompilationUnit.plain (byTokens encode) id) =
      (parseUnit text' .java).toOption.map (CompilationUnit.plain (byTokens encode) id) := by
  cases read : parseUnit text .java with
  | ok u =>
    obtain ⟨v, read', alike⟩ := exists_parseUnit_of_spacing free free' same encode read
    rw [read']
    exact congrArg some alike
  | error e =>
    cases read' : parseUnit text' .java with
    | error e' => rfl
    | ok v =>
      obtain ⟨u, read'', _⟩ := exists_parseUnit_of_spacing free' free same.symm encode read'
      rw [read] at read''
      cases read''

end Spacing

def crowded : String :=
  "@A(1,b)class C\x7bint d[]=\x7b1,2\x7d,e;C()\x7bsuper();d=f(e,2);if(e>d[0])\x7bg();\x7d\x7d\x7d"

def spread : String :=
  "@A ( 1 , b )\nclass C \x7b\n  int d [ ] = \x7b 1 , 2 \x7d ,\n e ;\n\tC ( ) \x7b super ( ) ; " ++
    "d\n=\nf ( e ,\n 2 ) ; if ( e > d [ 0 ] ) \x7b\n g ( ) ;\n \x7d \x7d\n\x7d\n"

theorem spread_of_crowded :
    CommentFree crowded ∧ CommentFree spread ∧ tokenSequence crowded = tokenSequence spread ∧
      (parseUnit crowded .java).toOption.isSome ∧
      ∀ encode,
        (parseUnit crowded .java).toOption.map (CompilationUnit.plain (byTokens encode) id) =
          (parseUnit spread .java).toOption.map (CompilationUnit.plain (byTokens encode) id) := by
  have free : CommentFree crowded := by decide +kernel
  have free' : CommentFree spread := by decide +kernel
  have same : tokenSequence crowded = tokenSequence spread := by decide +kernel
  exact ⟨free, free', same, by decide +kernel, parseUnit_of_same_tokens free free' same⟩

end CreatorSynth
