/-
One source file from its text to the files emitted for its records.
-/
import FieldRules.Emission
import FieldRules.Go.Parser
import FieldRules.Plan.Settle
import FieldRules.Plan.Unsettled
import FieldRules.Validator

namespace FieldRules

open Go

structure Artifact where
  record : String
  fileName : String
  source : String
  /-- Whether no check is missing from it, nor from what it hands over to. -/
  authoritative : Bool

structure CompiledUnit where
  sourceName : String
  package : String
  /-- Every record that is declared, with a plan or without. -/
  records : List String
  plans : List Plan
  artifacts : List Artifact
  diagnostics : List Diagnostic

namespace CompiledUnit

/-- The artifact of a plan, given the records that count for nothing. -/
def artifact (options : Emission.Options) (package sourceName : String) (unsettled : List String)
    (plan : Plan) : Artifact :=
  ⟨plan.record, options.fileName plan.record, Emission.emit options package sourceName plan,
    !unsettled.contains plan.record⟩

def ofFile (options : Emission.Options) (sourceName : String) (file : SourceFile) :
    CompiledUnit :=
  let (plans, found) := Plan.ofFile file
  let diagnostics := Diagnostic.sort found
  let unsettled := Plan.unsettled plans diagnostics
  { sourceName := sourceName
    package := file.package
    records := (file.decls.filter (·.isRecord)).map (·.name)
    plans := plans
    artifacts := plans.map (artifact options file.package sourceName unsettled)
    diagnostics := diagnostics }

def compile (options : Emission.Options) (sourceName source : String) :
    Except SyntaxError CompiledUnit :=
  (SourceFile.parse source.toList).map (ofFile options sourceName)

section

variable {options : Emission.Options} {sourceName source : String} {unit : CompiledUnit}
  {file : SourceFile}

theorem compile_of_parse (parsed : SourceFile.parse source.toList = .ok file) :
    compile options sourceName source = .ok (ofFile options sourceName file) := by
  unfold compile
  rw [parsed]
  rfl

theorem compile_eq_ok : compile options sourceName source = .ok unit ↔
    ∃ file, SourceFile.parse source.toList = .ok file ∧ ofFile options sourceName file = unit := by
  constructor
  · intro compiled
    cases parsed : SourceFile.parse source.toList with
    | error e =>
      unfold compile at compiled
      rw [parsed] at compiled
      cases compiled
    | ok file =>
      rw [compile_of_parse parsed] at compiled
      exact ⟨file, rfl, Except.ok.inj compiled⟩
  · rintro ⟨file, parsed, rfl⟩
    exact compile_of_parse parsed

end

def isSuccess (unit : CompiledUnit) : Bool := unit.diagnostics.isEmpty

def validators (unit : CompiledUnit) : List Validator := unit.plans.map Validator.ofPlan

end CompiledUnit

end FieldRules
