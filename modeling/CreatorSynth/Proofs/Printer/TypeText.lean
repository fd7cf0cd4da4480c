import CreatorSynth.Proofs.Parser.Words
import CreatorSynth.Proofs.Printer.Fits
import CreatorSynth.Proofs.Printer.Types

/-! Types and their texts. The types that are read back from their texts are those whose names are
dotted names, and no other type is ever read: printing and parsing are inverse to each other. -/
namespace CreatorSynth
open Text

theorem TypeArg.mem_namesOfAll {name : String} {args : List TypeArg} :
    name ∈ TypeArg.namesOfAll args ↔ ∃ a ∈ args, name ∈ a.names := by
  induction args with
  | nil => simp [TypeArg.namesOfAll]
  | cons a as ih => simp [TypeArg.namesOfAll, ih]

namespace Parser

variable {type : Parser TypeRef}

section Image

theorem gives_upcoming (n : Nat) :
    Gives (upcoming n) fun next => ∀ s, .name s ∈ next → IsName s := by
  refine ⟨fun worded run => ?_⟩
  rw [on_upcoming] at run
  cases run
  refine ⟨worded, fun s member => ?_⟩
  obtain ⟨t, inside, same⟩ := List.mem_map.mp member
  exact worded.ahead t (List.mem_of_mem_take inside) s same

theorem gives_dotName : Gives dotName fun found => ∀ s ∈ found, IsName s := by
  refine (gives_upcoming 2).bind fun next names => ?_
  split
  · rename_i s
    have name : IsName s := names s (by simp)
    exact Gives.quiet.bind fun _ _ => Gives.quiet.bind fun _ _ =>
      .pure fun t same => Option.some.inj same ▸ name
  · refine .pure fun s found => ?_
    cases found

theorem gives_typeArg (inner : Gives type TypeRef.Worded) :
    Gives (typeArg type) fun a => ∀ name ∈ a.names, IsPath name := by
  refine Gives.quiet.bind fun wildcard _ => .ite (fun _ => ?_) fun _ => ?_
  · refine Gives.quiet.bind fun upper _ => .ite (fun _ => ?_) fun _ => ?_
    · exact inner.bind fun t worded => .pure worded
    refine Gives.quiet.bind fun lower _ => .ite (fun _ => ?_) fun _ => .pure nofun
    exact inner.bind fun t worded => .pure worded
  · exact inner.bind fun t worded => .pure worded

theorem gives_typeArgs? (inner : Gives type TypeRef.Worded) :
    Gives (typeArgs? type) fun found =>
      ∀ args ∈ found, ∀ name ∈ TypeArg.namesOfAll args, IsPath name := by
  refine Gives.quiet.bind fun opens _ => .ite (fun _ => ?_) fun _ => .pure nofun
  refine Gives.quiet.bind fun diamond _ => .ite (fun _ => ?_) fun _ => ?_
  · refine .pure fun args same => ?_
    rw [← Option.some.inj same]
    nofun
  refine (Gives.separated (gives_typeArg inner)).bind fun args each => ?_
  refine Gives.quiet.bind fun _ _ => .pure fun args' same name member => ?_
  rw [← Option.some.inj same] at member
  obtain ⟨a, among, inside⟩ := TypeArg.mem_namesOfAll.mp member
  exact each a among name inside

/-- The name of a type is put together from its segments, and its arguments are those of one of
them, whichever annotations and other arguments are dropped. -/
theorem gives_typeRefOver (inner : Gives type TypeRef.Worded) :
    Gives (typeRefOver type) TypeRef.Worded := by
  have segment : Gives (typeSegment type) fun found => ∀ part ∈ found, IsName part.1 ∧
      ∀ args ∈ part.2, ∀ name ∈ TypeArg.namesOfAll args, IsPath name := by
    refine gives_dotName.bind fun found names => ?_
    cases found with
    | none => exact .pure nofun
    | some s =>
      exact (gives_typeArgs? inner).bind fun args paths => .pure fun part same =>
        Option.some.inj same ▸ ⟨names s rfl, paths⟩
  refine Gives.quiet.bind fun _ _ => gives_identifier.bind fun first word => ?_
  refine (gives_typeArgs? inner).bind fun args paths => ?_
  refine (Gives.many segment).bind fun others parts => Gives.quiet.bind fun dims _ => ?_
  refine .pure fun name member => ?_
  rw [TypeRef.names] at member
  rcases List.mem_cons.mp member with rfl | inside
  · refine isPath_joinSegments word fun s among => ?_
    obtain ⟨part, given, rfl⟩ := List.mem_map.mp among
    exact (parts part given).1
  · have lists : ∀ list ∈ (args :: others.map (·.2)).filterMap id,
        ∀ name ∈ TypeArg.namesOfAll list, IsPath name := by
      intro list among
      rw [List.mem_filterMap] at among
      obtain ⟨given, among, same⟩ := among
      rcases List.mem_cons.mp among with rfl | behind
      · exact paths list same
      · obtain ⟨part, known, rfl⟩ := List.mem_map.mp behind
        exact (parts part known).2 list same
    cases last : ((args :: others.map (·.2)).filterMap id).getLast? with
    | none =>
      rw [last] at inside
      cases inside
    | some list =>
      rw [last] at inside
      exact lists list (List.mem_of_getLast? last) name inside

theorem gives_typeRefWithin (depth : Nat) : Gives (typeRefWithin depth) TypeRef.Worded := by
  induction depth with
  | zero => exact .throw _
  | succ depth ih => exact gives_typeRefOver ih

theorem gives_typeRef : Gives typeRef TypeRef.Worded :=
  Gives.quiet.bind fun _ _ => gives_typeRefWithin _

end Image

theorem run_typeRef_text {t : TypeRef} (worded : t.Worded) (d : Dialect) :
    ∃ c, typeRef.run t.text d = .ok (t, c) ∧ c.rest = [] := by
  have whole : (t.pieces ++ []).flatMap Piece.text = t.text.toList := by
    rw [List.append_nil, t.flatMap_text_pieces]
  have fit : Piece.Fit (t.pieces ++ []) [] := by
    rw [List.append_nil]
    exact Piece.Sewn.fit_plain (Piece.sewn_typeRef t worded rfl)
  obtain ⟨_, c, run, left, rfl⟩ := run_of_takes whole fit
    (fun src => takes_typeRef worded (endsType_of_head? nofun)) d
  exact ⟨c, run, List.map_eq_nil_iff.mp left⟩

theorem worded_of_run_typeRef {t : TypeRef} {text : String} {d : Dialect} {c : Cursor}
    (run : typeRef.run text d = .ok (t, c)) : t.Worded := by
  obtain ⟨located, tokens, run⟩ := run_eq_ok.mp run
  exact (gives_typeRef.gives (worded_start tokens) run).2

end Parser

/-- Different types that can be read are printed differently. -/
theorem TypeRef.eq_of_text_eq {s t : TypeRef} (left : s.Worded) (right : t.Worded)
    (same : s.text = t.text) : s = t := by
  obtain ⟨_, run, _⟩ := Parser.run_typeRef_text left .java
  obtain ⟨_, run', _⟩ := Parser.run_typeRef_text right .java
  rw [same, run'] at run
  cases run
  rfl

/-- The types whose names are dotted names are those that are read back from their own texts to the
end, and those that are read from any text at all, wherever in a parse they stand. -/
theorem TypeRef.read_back_iff (t : TypeRef) (d : Dialect) :
    (t.Worded ↔ ∃ c, Parser.typeRef.run t.text d = .ok (t, c) ∧ c.rest = []) ∧
      (t.Worded ↔ ∃ text c, Parser.typeRef.run text d = .ok (t, c)) ∧
      (t.Worded ↔ ∃ src c c', c.Worded ∧ Parser.typeRef.on src c = .ok (t, c')) := by
  refine ⟨⟨fun worded => Parser.run_typeRef_text worded d, ?_⟩, ⟨fun worded => ?_, ?_⟩,
    ⟨fun worded => ?_, ?_⟩⟩
  · rintro ⟨c, run, _⟩
    exact Parser.worded_of_run_typeRef run
  · obtain ⟨c, run, _⟩ := Parser.run_typeRef_text worded d
    exact ⟨t.text, c, run⟩
  · rintro ⟨text, c, run⟩
    exact Parser.worded_of_run_typeRef run
  · obtain ⟨c, run, _⟩ := Parser.run_typeRef_text worded d
    obtain ⟨located, tokens, run⟩ := Parser.run_eq_ok.mp run
    exact ⟨_, _, c, Parser.worded_start tokens, run⟩
  · rintro ⟨src, c, c', names, run⟩
    exact (Parser.gives_typeRef.gives names run).2

/-- An annotation and the arguments of an outer segment are dropped, and what is left is stable. -/
example : (Parser.typeRef.run "@A record.Map<K, V>.Entry<? super int[]>[]" .java).toOption.map
    (·.1.text) = some "record.Map.Entry<? super int[]>[]" := by
  decide +kernel

end CreatorSynth
