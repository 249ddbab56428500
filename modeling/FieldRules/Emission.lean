/-
From a plan to the Go file that validates its record.

The file is a function of the plan, the package, the name of the source and the
options, and of nothing else.  It imports what its code uses, has one error
variable a check, and reports all failures joined.
-/
import FieldRules.Emission.Condition
import FieldRules.Format.Email
import FieldRules.Format.Uuid

namespace FieldRules
namespace Emission

open Go

structure Options where
  /-- What follows the record's name in the name of its file. -/
  suffix : String
  /-- Whether the record also gets a `Validate` method. -/
  method : Bool

def defaultSuffix : String := "_validator.go"

def Options.default : Options := ⟨defaultSuffix, true⟩

def Options.fileName (options : Options) (record : String) : String :=
  snakeCase record ++ options.suffix

/-- The comment that marks an emitted file, behind its slashes. -/
def generatedComment : String := "Code generated by govalid; DO NOT EDIT."

def sourceComment (source : String) : String := "source: " ++ source

def imports (plan : Plan) : List Package :=
  Package.all.filter fun package =>
    match package with
    | .errors => true
    | .fmt => plan.delegates
    | .netip => plan.uses .ipv4 || plan.uses .ipv6
    | .regexp => plan.uses .email || plan.uses .uuid
    | .utf8 => plan.uses .length || plan.uses .minLength || plan.uses .maxLength

def newError (text : String) : Expr :=
  .call (.qualified .errors "New") [.literal (some (.text text))]

def nilSentinel (record : String) : Variable :=
  ⟨nilName record ++ " is returned when a nil *" ++ record ++ " is validated.", nilName record,
    newError ("input " ++ record ++ " is nil")⟩

def sentinel (check : Check) (name : String) : Variable :=
  ⟨name ++ " reports that " ++ check.path.render ++ " failed the " ++ check.rule.name ++ " rule.",
    name, newError ("field " ++ check.path.render ++ " " ++ check.rule.describe check.argument)⟩

def namedChecks (plan : Plan) : List (Check × Option String) := plan.checks.zip (sentinels plan)

def group (plan : Plan) : List Variable :=
  nilSentinel plan.record ::
    (namedChecks plan).filterMap fun (check, name) => name.map (sentinel check)

def patterns (plan : Plan) : List (String × Expr) :=
  let entry := fun (rule : Rule) (pattern : String) =>
    if plan.uses rule then
      [(patternName plan.record rule,
        Expr.call (.qualified .regexp "MustCompile") [.literal (some (.text pattern))])]
    else []
  entry .email Format.emailPattern ++ entry .uuid Format.uuidPattern

/-- Adds an error to those found. -/
def appendError (e : Expr) : Stmt := .assign "errs" (.call (.name "append") [.name "errs", e])

/-- Runs the validator of the record at a path. -/
def handOver (target : String) (check : Check) : Stmt :=
  .when (some (["err"], .call (.name (validateName target)) [.address (fieldExpr check.path)]))
    (isNotNil errName)
    [appendError (.call (.qualified .fmt "Errorf")
      [.literal (some (.text ("field " ++ check.path.render ++ ": %w"))), errName])]

/-- What is done for a check, its guards apart. -/
def unguarded (record : String) (check : Check) (name : Option String) : Stmt :=
  match check.delegate with
  | some target => handOver target check
  | none =>
    let c := condition record check
    .when c.binding c.test [appendError (.name (name.getD ""))]

def guarded (record : String) (check : Check) (name : Option String) : Stmt :=
  let inner := unguarded record check name
  if check.guards.isEmpty then inner else .when none (guardTest check.guards) [inner]

def validateFunction (plan : Plan) : Function where
  comment := validateName plan.record ++ " checks every govalid marker on " ++ plan.record ++
    " and returns all failures joined."
  receiver := none
  name := validateName plan.record
  parameters := [("t", "*" ++ plan.record)]
  result := "error"
  body :=
    [.when none (.compare .equal subject nil) [.return (.name (nilName plan.record))],
      .declare "errs" "[]error"] ++
    (namedChecks plan).map (fun (check, name) => guarded plan.record check name) ++
    [.return (.call (.qualified .errors "Join") [.spread (.name "errs")])]

/-- The method that does the same. -/
def validateMethod (record : String) : Function where
  comment := "Validate checks t against the govalid markers on " ++ record ++ "."
  receiver := some ("t", "*" ++ record)
  name := "Validate"
  parameters := []
  result := "error"
  body := [.return (.call (.name (validateName record)) [subject])]

def codeFile (options : Options) (package source : String) (plan : Plan) : CodeFile where
  header := [generatedComment, sourceComment source]
  package := package
  imports := imports plan
  group := group plan
  single := patterns plan
  functions := validateFunction plan ::
    (if options.method then [validateMethod plan.record] else [])

def emit (options : Options) (package source : String) (plan : Plan) : String :=
  (codeFile options package source plan).render

end Emission
end FieldRules
