import CreatorSynth.Text.Dotted
import CreatorSynth.Text.Layout

/-! Types as they are written in a source: a dotted name, type arguments and array dimensions.
Nothing is resolved here. -/
namespace CreatorSynth
open Text

mutual
/-- A reference to a type. -/
structure TypeRef where
  name : String
  args : List TypeArg
  dims : Nat

/-- A type argument: a type, or a wildcard without a bound, with an upper or with a lower one. -/
inductive TypeArg
  | type (t : TypeRef)
  | any
  | extending (t : TypeRef)
  | superOf (t : TypeRef)
end

deriving instance Repr for TypeRef, TypeArg

mutual
def TypeRef.decEq : (s t : TypeRef) → Decidable (s = t)
  | ⟨n, as, d⟩, ⟨m, bs, e⟩ =>
      match String.decEq n m, TypeArg.decEqAll as bs, Nat.decEq d e with
      | isTrue hn, isTrue ha, isTrue hd => isTrue (by rw [hn, ha, hd])
      | isFalse hn, _, _ => isFalse fun h => hn (by injection h)
      | _, isFalse ha, _ => isFalse fun h => ha (by injection h)
      | _, _, isFalse hd => isFalse fun h => hd (by injection h)

def TypeArg.decEq : (a b : TypeArg) → Decidable (a = b)
  | .type s, .type t | .extending s, .extending t | .superOf s, .superOf t =>
      match TypeRef.decEq s t with
      | isTrue h => isTrue (by rw [h])
      | isFalse h => isFalse fun e => h (by injection e)
  | .any, .any => isTrue rfl
  | .type _, .any | .type _, .extending _ | .type _, .superOf _ => isFalse (by simp)
  | .any, .type _ | .any, .extending _ | .any, .superOf _ => isFalse (by simp)
  | .extending _, .type _ | .extending _, .any | .extending _, .superOf _ => isFalse (by simp)
  | .superOf _, .type _ | .superOf _, .any | .superOf _, .extending _ => isFalse (by simp)

def TypeArg.decEqAll : (as bs : List TypeArg) → Decidable (as = bs)
  | [], [] => isTrue rfl
  | [], _ :: _ | _ :: _, [] => isFalse (by simp)
  | a :: as, b :: bs =>
      match TypeArg.decEq a b, TypeArg.decEqAll as bs with
      | isTrue ha, isTrue hs => isTrue (by rw [ha, hs])
      | isFalse ha, _ => isFalse fun h => ha (by injection h)
      | _, isFalse hs => isFalse fun h => hs (by injection h)
end

instance : DecidableEq TypeRef := TypeRef.decEq
instance : DecidableEq TypeArg := TypeArg.decEq

namespace TypeRef

/-- A name alone. -/
def simple (name : String) : TypeRef :=
  ⟨name, [], 0⟩

/-- The array of so many more dimensions. -/
def array (t : TypeRef) (dims : Nat) : TypeRef :=
  { t with dims := t.dims + dims }

theorem array_zero (t : TypeRef) : t.array 0 = t := by
  cases t
  rfl

theorem array_array (t : TypeRef) (m n : Nat) : (t.array m).array n = t.array (m + n) := by
  simp only [array, Nat.add_assoc]

def simpleName (t : TypeRef) : String :=
  Text.simpleName t.name

/-- What signatures are compared by: the simple name and the dimensions. -/
def erasure (t : TypeRef) : String :=
  t.simpleName ++ repeated t.dims "[]"

end TypeRef

mutual
/-- The type as it is printed. -/
def TypeRef.text : TypeRef → String
  | ⟨name, args, dims⟩ => name ++ TypeArg.listText args ++ repeated dims "[]"

def TypeArg.text : TypeArg → String
  | .type t => t.text
  | .any => "?"
  | .extending t => "? extends " ++ t.text
  | .superOf t => "? super " ++ t.text

/-- Arguments in angles; nothing when there are none. -/
def TypeArg.listText : List TypeArg → String
  | [] => ""
  | a :: as => "<" ++ a.text ++ TypeArg.moreText as ++ ">"

def TypeArg.moreText : List TypeArg → String
  | [] => ""
  | a :: as => ", " ++ a.text ++ TypeArg.moreText as
end

mutual
/-- Every name in the type replaced, at every depth. -/
def TypeRef.rename (f : String → String) : TypeRef → TypeRef
  | ⟨name, args, dims⟩ => ⟨f name, TypeArg.renameAll f args, dims⟩

def TypeArg.rename (f : String → String) : TypeArg → TypeArg
  | .type t => .type (t.rename f)
  | .any => .any
  | .extending t => .extending (t.rename f)
  | .superOf t => .superOf (t.rename f)

def TypeArg.renameAll (f : String → String) : List TypeArg → List TypeArg
  | [] => []
  | a :: as => a.rename f :: TypeArg.renameAll f as
end

mutual
/-- The names in the type from left to right. -/
def TypeRef.names : TypeRef → List String
  | ⟨name, args, _⟩ => name :: TypeArg.namesOfAll args

def TypeArg.names : TypeArg → List String
  | .type t | .extending t | .superOf t => t.names
  | .any => []

def TypeArg.namesOfAll : List TypeArg → List String
  | [] => []
  | a :: as => a.names ++ TypeArg.namesOfAll as
end

theorem TypeRef.names_array (t : TypeRef) (dims : Nat) : (t.array dims).names = t.names := by
  obtain ⟨name, args, inner⟩ := t
  rfl

/-- A type variable and its bounds. -/
structure TypeParam where
  name : String
  bounds : List TypeRef
  deriving DecidableEq, Repr

def TypeParam.rename (f : String → String) (p : TypeParam) : TypeParam :=
  { p with bounds := p.bounds.map (·.rename f) }

end CreatorSynth
