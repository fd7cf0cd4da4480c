/-! Sets of characters as runs of code points, the form in which the tables of the character
properties are kept. -/
namespace CreatorSynth.Text

/-- Every `step`-th code point from `first` to `last`. -/
structure Run where
  first : Nat
  last : Nat
  step : Nat

def Run.holds (r : Run) (code : Nat) : Bool :=
  decide (r.first ≤ code) && decide (code ≤ r.last) && (code - r.first) % r.step == 0

/-- Whether some run of the table holds the code point. -/
def inRuns (table : List Run) (code : Nat) : Bool :=
  table.any (·.holds code)

end CreatorSynth.Text
