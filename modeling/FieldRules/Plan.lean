/-
Validation plans: the checks of one record, in order.
-/
import FieldRules.FieldPath
import FieldRules.Rule
import FieldRules.Text.Position

namespace FieldRules

open Text

structure Check where
  path : FieldPath
  /-- Pointers that must not be nil for the check to be made. -/
  guards : List FieldPath
  rule : Rule
  argument : Option Literal
  kind : Kind
  /-- The field's type as Go source. -/
  goType : String
  position : Position
  /-- The record whose own validator the check hands over to. -/
  delegate : Option String

structure Plan where
  record : String
  position : Position
  checks : List Check

namespace Plan

/-- Whether a check of a rule is made here and not handed over. -/
def uses (plan : Plan) (rule : Rule) : Bool :=
  plan.checks.any fun check => check.rule == rule && check.delegate.isNone

def delegates (plan : Plan) : Bool := plan.checks.any (·.delegate.isSome)

/-- Puts a plan among others: in the place of one for the same record, or at the end. -/
def insert (plan : Plan) : List Plan → List Plan
  | [] => [plan]
  | other :: plans =>
    if other.record = plan.record then plan :: plans else other :: insert plan plans

def names (plans : List Plan) : List String := plans.map (·.record)

end Plan

end FieldRules
