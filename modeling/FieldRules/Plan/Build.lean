/-
Building the plan of one record.

Each marker that occurs in it becomes one check or one diagnostic and has no
influence on the others, but that a rule applies to a path once: a repetition is
a diagnostic.
-/
import FieldRules.Argument
import FieldRules.Diagnostic
import FieldRules.Kind.Resolution
import FieldRules.Occurrence
import FieldRules.Plan

namespace FieldRules

open Go Text

inductive Rejection where
  | malformed (fault : MarkerFault)
  | unknown (spelling : String)
  /-- The rule is not for fields of this kind. -/
  | incompatible (spelling : String) (kind : Kind) (goType : String)
  | argument (spelling : String) (error : ArgumentError)
  | duplicate (rule : Rule)
  /-- A record that has neither a plan nor a comparable zero value. -/
  | uncheckable (goType : String)

namespace Rejection

def kind : Rejection → DiagnosticKind
  | malformed _ => .malformedMarker
  | unknown _ => .unknownRule
  | incompatible _ _ _ => .incompatibleRule
  | argument _ _ => .invalidArgument
  | duplicate _ => .duplicateRule
  | uncheckable _ => .incompatibleRule

def message : Rejection → String
  | malformed fault => fault.message
  | unknown spelling => "unknown rule `" ++ spelling ++ "`"
  | incompatible spelling kind goType =>
    "rule `" ++ spelling ++ "` cannot be applied to a " ++ kind.describe ++ " field (`" ++ goType ++
      "`)"
  | argument spelling error => "invalid argument for `" ++ spelling ++ "`: " ++ error.message
  | duplicate rule => "rule `" ++ rule.name ++ "` is already applied to this field"
  | uncheckable goType =>
    "rule `required` cannot be applied to `" ++ goType ++
      "`: it has no validation plan and its zero value is not comparable"

/-- The diagnostic for a marker that was read as one for `rule`. -/
def diagnostic (rejection : Rejection) (record : String) (path : FieldPath) (rule : Option String)
    (position : Position) : Diagnostic :=
  ⟨rejection.kind, record, path.render, rule, rejection.message, position⟩

end Rejection

namespace Plan

/-- Whether the kind of a field rules out `required`: an anonymous struct has no plan, so it
needs a comparable zero value. -/
def neverRequired (rule : Rule) (kind : Kind) : Bool :=
  match rule, kind with
  | .required, .record none false => true
  | _, _ => false

def checkOf (decls : List TypeDecl) (occurrence : Occurrence) (marker : Marker) :
    Except Rejection Check :=
  match Rule.ofSpelling? marker.rule with
  | none => .error (.unknown marker.rule)
  | some rule =>
    let kind := Kind.ofType decls occurrence.type
    let goType := occurrence.type.render
    if !rule.accepts kind || neverRequired rule kind then
      .error (.incompatible marker.rule kind goType)
    else
      match typeArgument rule marker.argument kind with
      | .error e => .error (.argument marker.rule e)
      | .ok argument =>
        .ok ⟨occurrence.path, occurrence.guards, rule, argument, kind, goType, marker.position, none⟩

/-- Whether a rule is already applied to a path. -/
def isTaken (checks : List Check) (check : Check) : Bool :=
  checks.any fun other => other.path == check.path && other.rule == check.rule

/-- What one marker comes to, given the checks made before it. -/
def checkOrDiagnose (decls : List TypeDecl) (record : String) (before : List Check)
    (occurrence : Occurrence) (marker : Marker) : Except Diagnostic Check :=
  let reject := fun (rejection : Rejection) =>
    rejection.diagnostic record occurrence.path (some marker.rule) marker.position
  match checkOf decls occurrence marker with
  | .error rejection => .error (reject rejection)
  | .ok check =>
    if isTaken before check then .error (reject (.duplicate check.rule)) else .ok check

/-- The checks and the diagnostics that some markers come to, behind checks already made. -/
def ofMarkers (decls : List TypeDecl) (record : String) :
    List Check → List (Occurrence × Marker) → List Check × List Diagnostic
  | checks, [] => (checks, [])
  | checks, (occurrence, marker) :: more =>
    match checkOrDiagnose decls record checks occurrence marker with
    | .ok check => ofMarkers decls record (checks ++ [check]) more
    | .error d =>
      let (all, ds) := ofMarkers decls record checks more
      (all, d :: ds)

/-- The markers of a record that could be read, with where they occur. -/
def wellFormed (decl : TypeDecl) : List (Occurrence × Marker) :=
  (Occurrence.inRecord decl).filterMap fun occurrence =>
    match occurrence.reading with
    | .ok marker => some (occurrence, marker)
    | .error _ => none

def malformed (decl : TypeDecl) : List Diagnostic :=
  (Occurrence.inRecord decl).filterMap fun occurrence =>
    match occurrence.reading with
    | .ok _ => none
    | .error bad => some
        ((Rejection.malformed bad.fault).diagnostic decl.name occurrence.path none bad.position)

/-- The plan of a record, if it has a check, and its diagnostics: malformed markers first. -/
def ofRecord (decls : List TypeDecl) (decl : TypeDecl) : Option Plan × List Diagnostic :=
  let (checks, ds) := ofMarkers decls decl.name [] (wellFormed decl)
  let plan := if checks.isEmpty then none else some ⟨decl.name, decl.position, checks⟩
  (plan, malformed decl ++ ds)

/-- The plans of some records, put among others in turn, and all diagnostics. -/
def ofRecords (decls : List TypeDecl) : List Plan → List TypeDecl → List Plan × List Diagnostic
  | plans, [] => (plans, [])
  | plans, decl :: more =>
    let (plan, ds) := ofRecord decls decl
    let (all, rest) := ofRecords decls ((plan.map (insert · plans)).getD plans) more
    (all, ds ++ rest)

end Plan

end FieldRules
