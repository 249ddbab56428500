/-
Settling `required` on named records.

Such a check hands over to the plan of the record, compares with the zero value
where there is no plan and the type allows it, and is dropped where neither is
possible.  A dropped check may leave a plan empty; an empty plan is no plan, and
what handed over to it has to be settled again.  Rounds are repeated until one
drops nothing.  Each but the last drops a check, so there are at most one more
than there are checks.
-/
import FieldRules.Plan.Build

namespace FieldRules
namespace Plan

def target? (check : Check) : Option String :=
  match check.rule, check.kind with
  | .required, .record (some name) _ => some name
  | _, _ => none

/-- Whether the zero value of a check's kind can be compared with. -/
def hasZero (check : Check) : Bool :=
  match check.kind with
  | .record _ comparable => comparable
  | _ => true

/-- A check once it is known which records have plans; none if it cannot be made. -/
def settleCheck (planned : List String) (check : Check) : Option Check :=
  match target? check with
  | none => some check
  | some name =>
    if planned.contains name then some { check with delegate := some name }
    else if hasZero check then some { check with delegate := none }
    else none

def dropped (record : String) (check : Check) : Diagnostic :=
  (Rejection.uncheckable check.goType).diagnostic record check.path (some check.rule.name)
    check.position

/-- The checks of a plan that can be made. -/
def settleChecks (planned : List String) (plan : Plan) : Plan :=
  { plan with checks := plan.checks.filterMap (settleCheck planned) }

/-- The diagnostics for those that cannot. -/
def droppedFrom (planned : List String) (plan : Plan) : List Diagnostic :=
  (plan.checks.filter fun check => (settleCheck planned check).isNone).map (dropped plan.record)

/-- One round over all plans: what is left of them, and what is said of dropped checks. -/
def settleRound (plans : List Plan) : List Plan × List Diagnostic :=
  let planned := names plans
  ((plans.map (settleChecks planned)).filter fun plan => !plan.checks.isEmpty,
    plans.flatMap (droppedFrom planned))

/-- Repeats rounds until one drops nothing, at most `fuel` times. -/
def settleRounds : Nat → List Plan → List Plan × List Diagnostic
  | 0, plans => (plans, [])
  | fuel + 1, plans =>
    let (left, ds) := settleRound plans
    if ds.isEmpty then (left, [])
    else
      let (last, more) := settleRounds fuel left
      (last, ds ++ more)

def checkCount : List Plan → Nat
  | [] => 0
  | plan :: plans => plan.checks.length + checkCount plans

def settle (plans : List Plan) : List Plan × List Diagnostic :=
  settleRounds (checkCount plans + 1) plans

/-- The plans of a file, in declaration order, and what was found wrong, in the order found. -/
def ofFile (file : Go.SourceFile) : List Plan × List Diagnostic :=
  let (plans, ds) := ofRecords file.decls [] (file.decls.filter (·.isRecord))
  let (settled, more) := settle plans
  (settled, ds ++ more)

end Plan
end FieldRules
