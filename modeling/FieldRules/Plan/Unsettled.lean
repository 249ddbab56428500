/-
Plans that cannot be relied on.

A file that was emitted from a plan with checks missing must not take the place
of one that is complete.  A plan is unsettled where its record has a diagnostic,
or any record that its checks hand over to, at whatever distance.  Passes over
the plans add the records that hand over to one found before, until a pass adds
none.  Each but the last adds a planned record, so there are at most one more
than there are plans.
-/
import FieldRules.Diagnostic
import FieldRules.Plan

namespace FieldRules
namespace Plan

/-- Whether a check hands over to one of some records. -/
def handsOverTo (targets : List String) (plan : Plan) : Bool :=
  plan.checks.any fun check => check.delegate.any targets.contains

/-- One pass over some plans.  A record that is added counts at once for the plans behind it. -/
def spread : List Plan → List String → List String
  | [], records => records
  | plan :: plans, records =>
    if plan.handsOverTo records && !records.contains plan.record then
      spread plans (records ++ [plan.record])
    else spread plans records

/-- Repeats passes until one adds nothing, at most `fuel` times. -/
def spreadAll (plans : List Plan) : Nat → List String → List String
  | 0, records => records
  | fuel + 1, records =>
    let more := spread plans records
    if more.length = records.length then more else spreadAll plans fuel more

/-- The planned records with diagnostics. -/
def reported (plans : List Plan) (ds : List Diagnostic) : List String :=
  (names plans).filter fun name => Diagnostic.hasRecord name ds

/-- The planned records with diagnostics and all that lead to one of them by handing over. -/
def unsettled (plans : List Plan) (ds : List Diagnostic) : List String :=
  spreadAll plans (plans.length + 1) (reported plans ds)

end Plan

end FieldRules
