import CreatorSynth.Proofs.Parser.Enclosure.Types
import CreatorSynth.Proofs.Parser.Heads

/-! Parameters, statements, methods and fields are read alike in front of the brace. -/
namespace CreatorSynth
open Text

namespace Parser

namespace Enclosure

variable {E : Enclosure}

section Params

theorem follows_param? :
    E.Follows 0 (Option.map (Param.shift E.offset)) param? param? := by
  have ellipsis : E.Same (accept .ellipsis) := same_accept (by decide)
  apply Follows.next
  intro start
  apply follows_modifiers.bind
  intro modifiers
  apply Follows.after
  intro type
  apply Follows.after
  intro varargs
  apply Follows.after
  intro receiver
  apply Follows.ite (.pure rfl)
  apply Follows.after
  intro name
  apply Follows.after
  intro dims
  exact (follows_spanFrom start).bind fun span => .pure rfl

theorem filterMap_map_option {α β : Type} (f : α → β) (found : List (Option α)) :
    (found.map (Option.map f)).filterMap id = (found.filterMap id).map f := by
  rw [List.filterMap_map, List.map_filterMap]
  rfl

theorem follows_params : E.Follows 0 (List.map (Param.shift E.offset)) params params := by
  have closing : E.Same (accept .rparen) := same_accept (by decide)
  apply Follows.after
  intro _
  apply Follows.after
  intro empty
  apply Follows.ite (.pure rfl)
  apply (follows_separated (by decide) follows_param?).bind
  intro found
  apply Follows.after
  intro _
  exact .pure (filterMap_map_option _ found).symm

instance : E.Same throwsClause := by
  have types : E.Same (separated .comma typeRef) := same_separated (by decide)
  unfold throwsClause
  infer_instance

end Params

section Statements

theorem follows_callStatement : E.Follows 1 id callStatement callStatement := by
  apply Follows.advancing
  apply Follows.after
  intro args
  exact .after fun _ => .pure rfl

theorem follows_assignment (qualified : Bool) (start : Nat) :
    E.Follows 0 (Statement.shift E.offset) (assignment qualified start)
      (assignment qualified (E.offset + start)) := by
  apply Follows.after
  intro field
  apply Follows.after
  intro _
  apply Follows.after
  intro value
  apply Follows.after
  intro _
  exact (follows_spanFrom start).bind fun span => .pure rfl

theorem follows_statementFrom (start : Nat) (ts : List Token) :
    E.Follows ts.length (Statement.shift E.offset)
      (statementFrom start (StatementHead.ofTokens ts))
      (statementFrom (E.offset + start) (StatementHead.ofTokens ts)) := by
  cases head : StatementHead.ofTokens ts with
  | superCall | thisCall =>
    have long : 2 ≤ ts.length := two_le_length_of_ofTokens (by rw [head]; nofun)
    apply Follows.weaken (m := 1) ?_ (Nat.le_of_succ_le long)
    apply follows_callStatement.bind
    intro args
    exact (follows_spanFrom start).bind fun span => .pure rfl
  | assignment qualified =>
    have long : 2 ≤ ts.length := two_le_length_of_ofTokens (by rw [head]; nofun)
    cases qualified with
    | false => exact (follows_assignment false start).weaken (Nat.zero_le _)
    | true =>
      apply Follows.weaken (m := 2) ?_ long
      exact .advancing (.advancing (follows_assignment true start))
  | other =>
    apply Follows.weaken (m := 0) ?_ (Nat.zero_le _)
    apply Follows.after
    intro text
    exact (follows_spanFrom start).bind fun span => .pure rfl

theorem demands_statementFrom_other {src : Source} (start : Nat) :
    Demands src (statementFrom start .other) :=
  inferInstanceAs (Demands src (rawStatement >>= _))

/-- A semicolon, or what the next tokens are the beginning of. -/
instance {src : Source} : Demands src statement := by
  have later (start : Nat) : Demands src (do
      if ← accept .semicolon then return none
      return some (← statementFrom start (StatementHead.ofTokens (← upcoming 5)))) := by
    apply Demands.stuck fun c none => on_accept_end none .semicolon
    rw [if_neg Bool.false_ne_true]
    apply Demands.stuck fun c none => on_upcoming_end none 5
    have other : Demands src (statementFrom start .other) := demands_statementFrom_other start
    exact inferInstanceAs (Demands src (statementFrom start .other >>= _))
  exact Demands.next

theorem follows_statement :
    E.Follows 0 (Option.map (Statement.shift E.offset)) statement statement := by
  have semicolon : E.Same (accept .semicolon) := same_accept (by decide)
  have demands : Demands E.inner statement := inferInstance
  unfold statement at demands ⊢
  apply Follows.next
  intro start
  apply Follows.after
  intro empty
  apply Follows.ite (.pure rfl)
  apply Follows.looking
  · intro ts
    exact (follows_statementFrom start ts).bind fun s => .pure rfl
  · intro ts _
    rw [ofTokens_ended (.inr rfl)]

instance {src : Source} : Demands src blockStep := by
  apply Demands.stuck fun c none => on_sees_end none .rbrace
  exact inferInstanceAs (Demands src (expectMore >>= _))

/-- A block of the text is closed within it, so a statement is awaited in front of a token of it. -/
theorem follows_blockStep :
    E.Follows 0 (Option.map (Option.map (Statement.shift E.offset))) blockStep blockStep := by
  apply Follows.demanded inferInstance
  apply (follows_sees .rbrace).bind
  intro closed
  apply Follows.ite (.pure rfl)
  apply Follows.after
  intro _
  exact follows_statement.bind fun s => .pure rfl

theorem follows_block : E.Follows 0 (Block.shift E.offset) block block := by
  apply Follows.next
  intro start
  apply Follows.after
  intro _
  apply (follows_many follows_blockStep).bind
  intro found
  apply Follows.after
  intro _
  apply (follows_spanFrom start).bind
  intro span
  apply Follows.pure
  rw [Block.shift, filterMap_map_option]

instance : E.Same skipDefault := by
  unfold skipDefault
  infer_instance

theorem follows_body? : E.Follows 0 (Option.map (Block.shift E.offset)) body? body? := by
  have opens : E.Same (sees .lbrace) := same_sees (by decide)
  apply Follows.after
  intro braced
  apply Follows.ite
  · exact follows_block.bind fun b => .pure rfl
  · apply Follows.after
    intro _
    exact .after fun _ => .pure rfl

end Statements

section Callables

variable {typeParams : List TypeParam} {name : String} {doc : Option String}

theorem follows_methodRest (modifiers : Modifiers) (returnType : Option TypeRef) (start : Nat) :
    E.Follows 0 (MethodDecl.shift E.offset)
      (methodRest modifiers typeParams returnType name start doc)
      (methodRest (modifiers.shift E.offset) typeParams returnType name (E.offset + start) doc) := by
  apply follows_params.bind
  intro params
  apply Follows.after
  intro dims
  apply Follows.after
  intro throws
  apply follows_body?.bind
  intro body
  exact (follows_spanFrom start).bind fun span => .pure rfl

instance : E.Same initializer? := by
  have sign : E.Same (accept .equals) := same_accept (by decide)
  unfold initializer?
  infer_instance

instance (name : String) : E.Same (declarator name) := by
  unfold declarator
  infer_instance

instance : E.Same nextDeclarator := by
  have comma : E.Same (accept .comma) := same_accept (by decide)
  unfold nextDeclarator
  infer_instance

theorem follows_fieldRest (modifiers : Modifiers) (type : TypeRef) (start : Nat) :
    E.Follows 0 (List.map (Member.shift E.offset)) (fieldRest modifiers type name start doc)
      (fieldRest (modifiers.shift E.offset) type name (E.offset + start) doc) := by
  apply Follows.after
  intro first
  apply Follows.after
  intro others
  apply Follows.after
  intro _
  apply (follows_spanFrom start).bind
  intro span
  apply Follows.pure
  rw [List.map_map]
  rfl

end Callables

end Enclosure

end Parser

end CreatorSynth
