/-! The two kinds of source. -/
namespace CreatorSynth

/-- In Groovy a declaration or a statement may end at a line break. -/
inductive Dialect
  | java
  | groovy
  deriving DecidableEq, Repr

/-- What is written after a declaration or a statement. -/
def Dialect.terminator : Dialect → String
  | java => ";"
  | groovy => ""

end CreatorSynth
