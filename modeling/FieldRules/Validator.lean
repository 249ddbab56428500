/-
Running the checks of a plan on a record.

All checks are run and every violation is reported, in plan order.  A check that
hands over runs the validator of the record it names on the value it finds, or
on the empty record where that value is missing or no record; what that reports
gets the path of the check in front.

Records may hand over to each other in a circle, so the depth is bounded.  Each
step either goes into a smaller record or stays at the empty one, where a chain
that is longer than the number of validators never ends: `none` stands for a run
without end.
-/
import FieldRules.Plan
import FieldRules.Rule.Violation

namespace FieldRules

structure Violation where
  path : FieldPath
  rule : Rule
  argument : Option String
  message : String

structure Validator where
  record : String
  checks : List Check

namespace Validator

def ofPlan (plan : Plan) : Validator := ⟨plan.record, plan.checks⟩

/-- The record that a path leads to, in which what is missing or no record reads as the empty
record; none behind a guard that is nil. -/
def descend (guards : List FieldPath) : FieldPath → Record → List String → Option Record
  | _, record, [] => some record
  | walked, record, name :: names =>
    let here := walked.child name
    match record.get? name with
    | some (.record fields) => descend guards here fields names
    | some .null => if guards.contains here then none else descend guards here [] names
    | none => if guards.contains here then none else descend guards here [] names
    | some _ => descend guards here [] names

/-- The value that a check is about; none behind a guard that is nil. -/
def resolve (record : Record) (check : Check) : Option Value :=
  match check.path.segments.getLast? with
  | none => none
  | some leaf =>
    (descend check.guards FieldPath.root record check.path.segments.dropLast).map fun parent =>
      (parent.get? leaf).getD (Value.zero check.kind)

/-- Whether a value of the right kind breaks a check.  A required pointer only has to be there,
whatever it points to; single precision rounds both sides. -/
def broken (check : Check) (value : Value) : Bool :=
  match check.rule, check.kind with
  | .required, .pointer _ => value.same .null
  | rule, .float bits =>
    if bits = 32 then rule.violated value.toSingle (check.argument.map Literal.toSingle)
    else rule.violated value check.argument
  | rule, _ => rule.violated value check.argument

def violation (check : Check) (path : FieldPath) (complaint : String) : Violation :=
  ⟨path, check.rule, check.argument.map Literal.render, "field " ++ path.render ++ " " ++ complaint⟩

/-- What a check reports about a value. -/
def judge (check : Check) (path : FieldPath) (value : Value) : List Violation :=
  if !value.conforms check.kind then
    [violation check path ("must be of kind " ++ check.kind.describe)]
  else if broken check value then
    [violation check path (check.rule.describe check.argument)]
  else []

/-- The record that a value stands for when a check hands over. -/
def asRecord : Value → Record
  | .record fields => fields
  | _ => []

/-- What one check reports, where `handOver` runs other validators. -/
def runCheck (lookup : String → Option Validator)
    (handOver : Validator → Record → FieldPath → Option (List Violation))
    (record : Record) (above : FieldPath) (check : Check) : Option (List Violation) :=
  match resolve record check with
  | none => some []
  | some value =>
    let path := above.append check.path
    match check.delegate.bind lookup with
    | some inner => handOver inner (asRecord value) path
    | none => some (judge check path value)

/-- What some checks report, one after the other. -/
def runChecks (run : Check → Option (List Violation)) : List Check → Option (List Violation)
  | [] => some []
  | check :: checks =>
    match run check with
    | none => none
    | some found => (runChecks run checks).map (found ++ ·)

/-- What a validator reports on a record that stands at a path, to a depth of handing over. -/
def run (lookup : String → Option Validator) :
    Nat → Validator → Record → FieldPath → Option (List Violation)
  | 0, _, _, _ => none
  | depth + 1, validator, record, above =>
    runChecks (runCheck lookup (run lookup depth) record above) validator.checks

/-- The validator of a name among some. -/
def find? (validators : List Validator) (name : String) : Option Validator :=
  validators.find? (·.record == name)

/-- What a validator reports on a record, where checks that hand over find `others`; none if it
never ends. -/
def validate (validator : Validator) (others : List Validator) (record : Record) :
    Option (List Violation) :=
  run (find? others) ((Value.record record).depth + others.length + 2) validator record
    FieldPath.root

end Validator

namespace Violation

def summary (violations : List Violation) : String :=
  String.intercalate "; " (violations.map (·.message))

end Violation

end FieldRules
