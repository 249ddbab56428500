/-
Sets of code points written as runs.

A run takes every `step`-th code point from `first` to `last`; a step of two is
how alternating capital and small letters are laid out.
-/
namespace FieldRules
namespace Text

structure Run where
  first : Nat
  last : Nat
  step : Nat
  deriving DecidableEq, Repr

namespace Run

def contains (r : Run) (n : Nat) : Bool :=
  decide (r.first ≤ n) && decide (n ≤ r.last) && (n - r.first) % r.step == 0

end Run

/-- Membership of a character in the union of some runs. -/
def inRuns (runs : List Run) (c : Char) : Bool :=
  runs.any (·.contains c.toNat)

end Text
end FieldRules
