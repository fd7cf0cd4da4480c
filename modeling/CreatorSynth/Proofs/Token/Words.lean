import CreatorSynth.Proofs.Parser.Ahead
import CreatorSynth.Proofs.Text.Dotted

/-! What a parser takes for a name: a token that is a name, or the word `record`, which is a keyword
where a record begins and a name anywhere else. Dotted names and types are made of such words. -/
namespace CreatorSynth
open Text

/-- A name, or the word `record`. -/
def IsWord (s : String) : Prop :=
  IsName s ∨ s = Keyword.recordWord.text

/-- The token that a word is cut as. -/
def wordToken (s : String) : Token :=
  if s = Keyword.recordWord.text then .keyword .recordWord else .name s

theorem IsName.ne_record {s : String} (name : IsName s) : s ≠ Keyword.recordWord.text := by
  rintro rfl
  cases name.2

theorem wordToken_of_isName {s : String} (name : IsName s) : wordToken s = .name s :=
  if_neg name.ne_record

theorem wordToken_cases (s : String) :
    s = Keyword.recordWord.text ∧ wordToken s = .keyword .recordWord ∨
      s ≠ Keyword.recordWord.text ∧ wordToken s = .name s := by
  unfold wordToken
  split
  · exact .inl ⟨‹_›, rfl⟩
  · exact .inr ⟨‹_›, rfl⟩

@[simp] theorem text_wordToken (s : String) : (wordToken s).text = s := by
  obtain ⟨same, token⟩ | ⟨_, token⟩ := wordToken_cases s
  · rw [token, same]
    rfl
  · rw [token]
    rfl

@[simp] theorem isDoc_wordToken (s : String) : (wordToken s).isDoc = false := by
  obtain ⟨_, token⟩ | ⟨_, token⟩ := wordToken_cases s <;> rw [token] <;> rfl

@[simp] theorem nest_wordToken (depth : Nat) (s : String) : (wordToken s).nest depth = depth := by
  obtain ⟨_, token⟩ | ⟨_, token⟩ := wordToken_cases s <;> rw [token] <;> rfl

@[simp] theorem wordToken_ne_symbol (s : String) (symbol : Symbol) :
    wordToken s ≠ .symbol symbol := by
  obtain ⟨_, token⟩ | ⟨_, token⟩ := wordToken_cases s <;> rw [token] <;> nofun

theorem wordToken_ne_keyword {word : Keyword} (other : word ≠ .recordWord) (s : String) :
    wordToken s ≠ .keyword word := by
  obtain ⟨_, token⟩ | ⟨_, token⟩ := wordToken_cases s <;> rw [token] <;> simp [other.symm]

namespace Keyword

theorem isName_shape (word : Keyword) : ∃ c cs, word.text.toList = c :: cs ∧
    isNameStart c = true ∧ cs.all isNamePart = true := by
  cases word <;> exact ⟨_, _, rfl, by decide, by decide⟩

end Keyword

namespace IsWord

variable {s : String}

theorem shape (word : IsWord s) :
    ∃ c cs, s.toList = c :: cs ∧ isNameStart c = true ∧ cs.all isNamePart = true := by
  rcases word with name | rfl
  · exact name.1
  · exact Keyword.isName_shape _

theorem isName (word : IsWord s) (other : s ≠ Keyword.recordWord.text) : IsName s :=
  word.resolve_right other

theorem solid (word : IsWord s) : ∀ c ∈ s.toList, isBlank c = false := by
  obtain ⟨first, cs, shape, start, parts⟩ := word.shape
  rw [shape]
  intro c member
  rcases List.mem_cons.mp member with rfl | later
  · exact isBlank_of_isNamePart (isNamePart_of_isNameStart start)
  · exact isBlank_of_isNamePart (List.all_eq_true.mp parts c later)

end IsWord

instance (s : String) : Decidable (IsWord s) :=
  inferInstanceAs (Decidable (_ ∨ _))

/-- A dotted name that a type can have: a word, and names behind it. -/
def IsPath (name : String) : Prop :=
  (∀ s ∈ (segments name).head?, IsWord s) ∧ ∀ s ∈ (segments name).tail, IsName s

instance (name : String) : Decidable (IsPath name) :=
  inferInstanceAs (Decidable (_ ∧ _))

theorem IsPath.isWord {name : String} (path : IsPath name) : ∀ s ∈ segments name, IsWord s := by
  obtain ⟨first, behind⟩ := path
  generalize segments name = parts at first behind
  cases parts with
  | nil => nofun
  | cons s others => exact List.forall_mem_cons.mpr ⟨first s rfl, fun s member =>
      .inl (behind s member)⟩

theorem IsName.dotFree {s : String} (name : IsName s) : DotFree s := by
  obtain ⟨first, others, shape, start, parts⟩ := name.1
  rw [DotFree, shape]
  intro member
  rcases List.mem_cons.mp member with rfl | behind
  · cases start
  · cases List.all_eq_true.mp parts _ behind

theorem IsWord.dotFree {s : String} (word : IsWord s) : DotFree s := by
  rcases word with name | rfl
  · exact name.dotFree
  · simp [DotFree, Keyword.text]

/-- The segments that a parser joins make a dotted name. -/
theorem isPath_joinSegments {first : String} {others : List String} (word : IsWord first)
    (names : ∀ s ∈ others, IsName s) : IsPath (joinSegments (first :: others)) := by
  have split : segments (joinSegments (first :: others)) = first :: others :=
    segments_joinSegments (List.cons_ne_nil _ _) (List.forall_mem_cons.mpr
      ⟨word.dotFree, fun s member => (names s member).dotFree⟩)
  rw [IsPath, split]
  exact ⟨fun s same => Option.some.inj same ▸ word, names⟩

theorem IsWord.isPath {s : String} (word : IsWord s) : IsPath s := by
  rw [IsPath, segments_of_dotFree word.dotFree]
  exact ⟨fun t same => Option.some.inj same ▸ word, nofun⟩

namespace TypeRef

/-- All names in the type are dotted names that it can have. -/
def Worded (t : TypeRef) : Prop :=
  ∀ name ∈ t.names, IsPath name

instance (t : TypeRef) : Decidable t.Worded :=
  inferInstanceAs (Decidable (∀ name ∈ t.names, _))

theorem worded_simple {name : String} (path : IsPath name) : (simple name).Worded :=
  List.forall_mem_singleton.mpr path

end TypeRef

namespace Piece

theorem stands_word {s : String} {rest : List Char} (word : IsWord s)
    (apart : rest.head?.any isNamePart = false) : (token (wordToken s)).Stands rest := by
  rcases word with name | rfl
  · rw [wordToken_of_isName name]
    exact stands_name name apart
  · exact stands_keyword apart

@[simp] theorem text_word (s : String) : (token (wordToken s)).text = s.toList :=
  congrArg String.toList (text_wordToken s)

@[simp] theorem tokens_word (s : String) (pieces : List Piece) :
    tokens (token (wordToken s) :: pieces) = wordToken s :: tokens pieces :=
  tokens_token pieces (isDoc_wordToken s)

@[simp] theorem ahead_word (start : Nat) (s : String) (pieces : List Piece) :
    ahead start (token (wordToken s) :: pieces) =
      ⟨wordToken s, start, start + byteLength s.toList⟩ ::
        ahead (start + byteLength s.toList) pieces := by
  rw [ahead_token start pieces (isDoc_wordToken s), text_wordToken]

theorem mem_of_mem_locate {t : Located} {start : Nat} {pieces : List Piece}
    (member : t ∈ locate start pieces) : token t.token ∈ pieces := by
  induction pieces generalizing start with
  | nil => cases member
  | cons piece pieces ih =>
    cases piece with
    | gap g => exact List.mem_cons_of_mem _ (ih member)
    | token u =>
      rcases List.mem_cons.mp member with rfl | later
      · exact List.mem_cons_self
      · exact List.mem_cons_of_mem _ (ih later)

end Piece

theorem isName_of_tokenize {text s : String} {located : List Located} {t : Located}
    (cut : tokenize text = .ok located) (member : t ∈ located) (name : t.token = .name s) :
    IsName s := by
  obtain ⟨pieces, _, stand, rfl⟩ := Piece.exists_pieces_of_tokenize cut
  have inside := Piece.mem_of_mem_locate member
  rw [name] at inside
  obtain ⟨rest, stands⟩ := stand.of_mem inside
  exact Piece.isName_of_next? stands

namespace Parser.At

variable {src : Source} {c : Cursor} {before : List Char} {pieces : List Piece} {s : String}

theorem word (here : At src c before (.token (wordToken s) :: pieces)) :
    Parser.identifier.on src c = .ok (s, c.next) := by
  rw [on_identifier, here.head, Piece.tokens_word]
  obtain ⟨same, token⟩ | ⟨_, token⟩ := wordToken_cases s
  · rw [token, same]
    rfl
  · rw [token]
    rfl

end Parser.At

end CreatorSynth
