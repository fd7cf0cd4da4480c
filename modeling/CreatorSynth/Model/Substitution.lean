import CreatorSynth.Model.Class

/-! Types of a superclass as seen from a subclass: type variables replaced by what the subclass
supplies for them. -/
namespace CreatorSynth

structure Substitution where
  /-- The first entry of a name counts. -/
  entries : List (String × TypeArg)
  /-- The superclass is extended without type arguments. -/
  raw : Bool
  deriving DecidableEq, Repr

/-- The type that stands for an argument where a type is declared: a wildcard gives its bound. -/
def TypeArg.declared : TypeArg → TypeRef
  | .type t | .extending t | .superOf t => t
  | .any => TypeRef.simple "Object"

/-- The first bound without its arguments, or `Object`. -/
def TypeParam.erased (p : TypeParam) : TypeRef :=
  match p.bounds with
  | bound :: _ => ⟨bound.name, [], bound.dims⟩
  | [] => TypeRef.simple "Object"

namespace Substitution

def empty : Substitution :=
  ⟨[], false⟩

def isEmpty (s : Substitution) : Bool :=
  s.entries.isEmpty

def insert (s : Substitution) (name : String) (type : TypeRef) : Substitution :=
  { s with entries := (name, .type type) :: s.entries }

def lookup? (s : Substitution) (name : String) : Option TypeArg :=
  s.entries.lookup name

/-- Names that are bound elsewhere are left alone. -/
def without (s : Substitution) (names : List String) : Substitution :=
  { s with entries := s.entries.filter fun entry => !names.contains entry.1 }

/-- Each type parameter of the superclass with its argument. One without an argument, as all are
when the superclass is extended raw, is erased. -/
def ofSuperclass (c : Superclass) : Substitution :=
  let bind (i : Nat) (p : TypeParam) : String × TypeArg :=
    (p.name, (c.typeArgs[i]?).getD (.type p.erased))
  let entries := (c.typeParams.mapIdx bind).reverse
  ⟨entries, c.typeArgs.isEmpty && !entries.isEmpty⟩

end Substitution

mutual
/-- A variable of the substitution occurs in the type. -/
def TypeRef.mentions (s : Substitution) : TypeRef → Bool
  | ⟨name, [], _⟩ => (s.lookup? name).isSome
  | ⟨_, a :: as, _⟩ => a.mentions s || TypeArg.anyMentions s as

def TypeArg.mentions (s : Substitution) : TypeArg → Bool
  | .type t | .extending t | .superOf t => t.mentions s
  | .any => false

def TypeArg.anyMentions (s : Substitution) : List TypeArg → Bool
  | [] => false
  | a :: as => a.mentions s || TypeArg.anyMentions s as
end

mutual
/-- The variables in a type replaced. In a raw view a type whose arguments mention a variable loses
its arguments. -/
def TypeRef.substitute (s : Substitution) : TypeRef → TypeRef
  | ⟨name, [], dims⟩ =>
      match s.lookup? name with
      | some arg => arg.declared.array dims
      | none => ⟨name, [], dims⟩
  | ⟨name, a :: as, dims⟩ =>
      if s.raw && (TypeRef.mk name (a :: as) dims).mentions s then ⟨name, [], dims⟩
      else ⟨name, a.substitute s :: TypeArg.substituteAll s as, dims⟩

/-- A variable alone as an argument is replaced by a whole argument, which may be a wildcard. -/
def TypeArg.substitute (s : Substitution) : TypeArg → TypeArg
  | .type t =>
      if t.args.isEmpty && t.dims == 0 then (s.lookup? t.name).getD (.type t)
      else .type (t.substitute s)
  | .any => .any
  | .extending t => .extending (t.substitute s)
  | .superOf t => .superOf (t.substitute s)

def TypeArg.substituteAll (s : Substitution) : List TypeArg → List TypeArg
  | [] => []
  | a :: as => a.substitute s :: TypeArg.substituteAll s as
end

/-- A constructor with the variables of its class replaced. Its own type parameters hide those of
the same name. -/
def BaseConstructor.substitute (s : Substitution) (c : BaseConstructor) : BaseConstructor :=
  c.mapTypes (·.substitute (s.without (c.typeParams.map (·.name))))

end CreatorSynth
