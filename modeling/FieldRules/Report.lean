/-
What is said about files that were compiled, for machines and for people.

Members of JSON objects that hold nothing are left out where the object is an
entry of a list: a check without guards has no member for them.
-/
import FieldRules.CompiledUnit
import FieldRules.Json.Written

namespace FieldRules
namespace Report

open Go Text

/-- A member that is left out if there is no value. -/
def whenSome (name : String) (value : Option Json) : List (String × Json) :=
  (value.map fun v => (name, v)).toList

/-- A member that is left out if there are no items. -/
def whenAny (name : String) (items : List Json) : List (String × Json) :=
  if items.isEmpty then [] else [(name, .array items)]

def textOrNull (text : Option String) : Json := (text.map Json.text).getD .null

def ofPosition (position : Position) : Json :=
  .object [("line", .integer position.line), ("column", .integer position.column)]

def ofPath (path : FieldPath) : Json := .text path.render

/-- Objects of kinds name the kind first. -/
def ofKind : Kind → Json
  | .integer min max =>
    .object [("kind", .text "integer"), ("min", .integer min), ("max", .integer max)]
  | .float bits => .object [("kind", .text "float"), ("bits", .integer bits)]
  | .text => .object [("kind", .text "text")]
  | .bool => .object [("kind", .text "bool")]
  | .record name comparable =>
    .object [("kind", .text "record"), ("name", textOrNull name), ("comparable", .bool comparable)]
  | .pointer target => .object [("kind", .text "pointer"), ("to", ofKind target)]
  | .collection => .object [("kind", .text "collection")]
  | .foreign => .object [("kind", .text "opaque")]

mutual

/-- An argument as the plain JSON value it stands for. -/
def ofLiteral : Literal → Json
  | .int value => .integer value
  | .float value => .double value
  | .text value => .text value
  | .count value => .integer value
  | .list items => .array (ofLiterals items)

def ofLiterals : List Literal → List Json
  | [] => []
  | item :: items => ofLiteral item :: ofLiterals items

end

/-- A check, with its argument written by `argument`. -/
def ofCheck (argument : Literal → Json) (check : Check) : Json :=
  .object
    ([("path", ofPath check.path)] ++ whenAny "guards" (check.guards.map ofPath) ++
      [("rule", .text check.rule.name)] ++ whenSome "argument" (check.argument.map argument) ++
      [("kind", ofKind check.kind), ("go_type", .text check.goType),
        ("position", ofPosition check.position)] ++
      whenSome "delegate" (check.delegate.map Json.text))

def ofPlan (argument : Literal → Json) (plan : Plan) : Json :=
  .object
    [("record", .text plan.record), ("position", ofPosition plan.position),
      ("checks", .array (plan.checks.map (ofCheck argument)))]

def ofDiagnostic (d : Diagnostic) : Json :=
  .object
    [("kind", .text d.kind.name), ("record", .text d.record), ("path", .text d.path),
      ("rule", textOrNull d.rule), ("message", .text d.message),
      ("position", ofPosition d.position)]

/-- The plans of a file and what was found wrong. -/
def ofUnit (unit : CompiledUnit) : Json :=
  .object
    [("source", .text unit.sourceName), ("package", .text unit.package),
      ("plans", .array (unit.plans.map (ofPlan ofLiteral))),
      ("diagnostics", .array (unit.diagnostics.map ofDiagnostic))]

/-- The line about a file that could not be read as declarations. -/
def syntaxLine (path : String) (e : SyntaxError) : String :=
  path ++ ": error[syntax] " ++ e.message ++ "\n"

/-- The line about an emitted file that is not as it should be. -/
def staleLine (path : String) : String := path ++ ": stale (run `govalid generate`)\n"

end Report

/-- A source file, by the path it was found at, and what came of it. -/
structure Loaded where
  path : String
  result : Except Go.SyntaxError CompiledUnit

namespace Loaded

open Report

/-- Whether something was found wrong with the file. -/
def failed (loaded : Loaded) : Bool :=
  match loaded.result with
  | .ok unit => !unit.isSuccess
  | .error _ => true

def toJson (loaded : Loaded) (stale : List String) : Json :=
  .object
    ([("source", .text loaded.path)] ++
      (match loaded.result with
        | .ok unit => [("diagnostics", .array (unit.diagnostics.map ofDiagnostic))]
        | .error e => [("syntax_error", .text e.message)]) ++
      whenAny "stale" (stale.map Json.text))

def render (style : Style) (loaded : Loaded) (stale : List String) : String :=
  (match loaded.result with
    | .ok unit => Diagnostic.renderAll style loaded.path unit.diagnostics
    | .error e => syntaxLine loaded.path e) ++
  String.join (stale.map staleLine)

end Loaded
end FieldRules
