/-
When a check is broken, in Go.

The condition is true exactly when the rule is violated, so comparisons stand
the other way round than in the rule.
-/
import FieldRules.Emission.Names
import FieldRules.Go.Code

namespace FieldRules
namespace Emission

open Go

def subject : Expr := .name "t"

def fieldExpr (path : FieldPath) : Expr := path.segments.foldl Expr.select subject

/-- The field as a plain string. -/
def textExpr (check : Check) : Expr :=
  if check.goType == "string" then fieldExpr check.path
  else .call (.name "string") [fieldExpr check.path]

def nil : Expr := .name "nil"

def errName : Expr := .name "err"

def isNotNil (e : Expr) : Expr := .compare .notEqual e nil

/-- A condition and what has to be bound for it. -/
structure Condition where
  binding : Option (List String × Expr)
  test : Expr

namespace Condition

def plain (test : Expr) : Condition := ⟨none, test⟩

end Condition

def zeroTest (check : Check) : Expr :=
  let field := fieldExpr check.path
  match check.kind with
  | .integer _ _ => .compare .equal field (.literal (some (.int 0)))
  | .float _ => .compare .equal field (.literal (some (.int 0)))
  | .text => .compare .equal field (.literal (some (.text "")))
  | .bool => .not field
  | .record _ _ => .compare .equal field (.zeroOf check.goType)
  | .pointer _ => .compare .equal field nil
  | .collection => .compare .equal field nil
  | .foreign => .compare .equal field nil

def compareField (comparison : Comparison) (check : Check) : Condition :=
  .plain (.compare comparison (fieldExpr check.path) (.literal check.argument))

def compareLength (comparison : Comparison) (check : Check) : Condition :=
  .plain (.compare comparison (.call (.qualified .utf8 "RuneCountInString") [textExpr check])
    (.literal check.argument))

/-- The field does not match the pattern of its format. -/
def unmatched (record : String) (check : Check) : Condition :=
  .plain (.not (.call (.select (.name (patternName record check.rule)) "MatchString")
    [textExpr check]))

def addr : Expr := .name "addr"

def methodOf (e : Expr) (method : String) : Expr := .call (.select e method) []

/-- The field is no address, or one that fails one of some tests. -/
def unparsedAddress (check : Check) (failures : List Expr) : Condition :=
  ⟨some (["addr", "err"], .call (.qualified .netip "ParseAddr") [textExpr check]),
    .any (isNotNil errName :: failures)⟩

def unlisted (check : Check) : Condition :=
  match check.argument with
  | some (.list items) =>
    .plain (.all (items.map fun item =>
      .compare .notEqual (fieldExpr check.path) (.literal (some item))))
  | _ => .plain (.name "true")

def condition (record : String) (check : Check) : Condition :=
  match check.rule with
  | .required => .plain (zeroTest check)
  | .eq => compareField .notEqual check
  | .ne => compareField .equal check
  | .gte => compareField .less check
  | .lte => compareField .greater check
  | .gt => compareField .lessEqual check
  | .lt => compareField .greaterEqual check
  | .length => compareLength .notEqual check
  | .minLength => compareLength .less check
  | .maxLength => compareLength .greater check
  | .email => unmatched record check
  | .uuid => unmatched record check
  | .ipv4 => unparsedAddress check [.not (methodOf addr "Is4")]
  | .ipv6 => unparsedAddress check [.not (methodOf addr "Is6"),
      .compare .notEqual (methodOf addr "Zone") (.literal (some (.text "")))]
  | .enum => unlisted check

/-- All pointers above a field are there. -/
def guardTest (guards : List FieldPath) : Expr :=
  .all (guards.map fun guard => isNotNil (fieldExpr guard))

end Emission
end FieldRules
