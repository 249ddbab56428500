/-
A missing field reads as the zero value of its kind.

A field is read as what a check is about, as a record on the way to one, as a pointer
that guards one, and as a record that is handed over.  Its zero value reads in all four
ways as the missing field does: nothing is found below either, and a field that guards is
a pointer, whose zero value is nil.  After one step down the walk of a check goes on in
the same record, so every check is about the same (`resolve_insert_zero`), and so is the
run of a validator, to any depth.
-/
import FieldRules.Proofs.Blocks
import FieldRules.Proofs.Routes

namespace FieldRules

open Go

namespace Record

variable {record : Record} {name : String} {kind : Kind}

/-- Nothing is found below a zero value. -/
theorem asRecord_zero (kind : Kind) : Validator.asRecord (Value.zero kind) = [] := by
  cases kind <;> rfl

/-- The zero value is what is read where the field is missing. -/
theorem getD_insert_zero (missing : record.get? name = none) {other : String} {own : Kind}
    (same : other = name → own = kind) :
    ((record.insert name (Value.zero kind)).get? other).getD (Value.zero own) =
      (record.get? other).getD (Value.zero own) := by
  by_cases h : other = name
  · rw [same h, h, get?_insert_self, missing]
    rfl
  · rw [get?_insert_ne h]

theorem below_insert_zero (missing : record.get? name = none) (kind : Kind) (other : String) :
    (record.insert name (Value.zero kind)).below other = record.below other := by
  unfold below
  by_cases same : other = name
  · rw [same, get?_insert_self, missing]
    exact asRecord_zero kind
  · rw [get?_insert_ne same]

/-- A zero value is nil where the missing field is, if it is nil at all. -/
theorem isNilAt_insert_zero (missing : record.get? name = none) {other : String}
    (nil : other = name → Value.zero kind = .null) :
    (record.insert name (Value.zero kind)).isNilAt other = record.isNilAt other := by
  unfold isNilAt
  by_cases same : other = name
  · rw [nil same, same, get?_insert_self, missing]
  · rw [get?_insert_ne same]

end Record

namespace Validator

variable {lookup : String → Option Validator} {record : Record}

/-- A run does not depend on more of a record than what the checks are about. -/
theorem run_of_resolve {validator : Validator} {other : Record}
    (same : ∀ check ∈ validator.checks, resolve record check = resolve other check) (depth : Nat)
    (above : FieldPath) :
    run lookup depth validator record above = run lookup depth validator other above := by
  cases depth with
  | zero => rfl
  | succ depth =>
    rw [run, run]
    refine runChecks_congr fun check hcheck => ?_
    unfold runCheck
    rw [same check hcheck]

variable {decls : List TypeDecl} {fields : List Field} {chain : Chain} {leaf : String × TypeExpr}
  {check : Check} {field : Field} {name : String}

/-- A field that guards a check is a pointer. -/
theorem isPointer_of_guard {step : String × TypeExpr}
    (leads : Chain.LeadsTo decls fields (step :: chain) leaf check)
    (guard : FieldPath.root.child step.1 ∈ check.guards) : step.2.isPointer = true := by
  rw [leads.guards] at guard
  have contains : ([] ++ Chain.pointers FieldPath.root ((step.1, step.2) :: chain)).contains
      (FieldPath.root.child step.1) = step.2.isPointer :=
    Chain.contains_child fun _ h => nomatch h
  rw [← contains]
  exact List.contains_iff_mem.2 guard

/-- A check is about the same where a missing field is given the zero value of its kind. -/
theorem resolve_insert_zero (unique : (fields.flatMap Field.names).Nodup)
    (leads : Chain.LeadsTo decls fields chain leaf check) (hfield : field ∈ fields)
    (hname : name ∈ field.names) (missing : record.get? name = none) :
    resolve (record.insert name (Value.zero (Kind.ofType decls field.type))) check =
      resolve record check := by
  have first : ∀ step rest, chain ++ [leaf] = step :: rest → step.1 = name →
      step.2 = field.type := by
    intro step rest split same
    have declared := leads.declared
    rw [split] at declared
    have here : Declares fields [(name, field.type)] := .last hfield hname
    exact congrArg Prod.snd (declared.head_unique unique here same)
  have last : check.path.segments.getLast? = some leaf.1 := by
    rw [leads.path, List.getLast?_concat]
  have front : check.path.segments.dropLast = Chain.names chain := by
    rw [leads.path, List.dropLast_concat]
  unfold resolve
  rw [last, front]
  cases chain with
  | nil =>
    -- The check is about a field of the record itself.
    refine congrArg some (Record.getD_insert_zero missing fun same => ?_)
    rw [leads.kind, first leaf [] rfl same]
  | cons step chain =>
    -- The field is only gone through, or stays aside.
    have nil : FieldPath.root.child step.1 ∈ check.guards → step.1 = name →
        Value.zero (Kind.ofType decls field.type) = .null := by
      intro guard same
      have pointer := isPointer_of_guard leads guard
      rw [first step _ rfl same] at pointer
      obtain ⟨target, htarget⟩ := Chain.ofType_pointer decls pointer
      rw [htarget]
      rfl
    have stops : (FieldPath.root.child step.1 ∈ check.guards ∧
          (record.insert name (Value.zero (Kind.ofType decls field.type))).isNilAt step.1 = true) ↔
        FieldPath.root.child step.1 ∈ check.guards ∧ record.isNilAt step.1 = true :=
      and_congr_right fun guard => by rw [Record.isNilAt_insert_zero missing (nil guard)]
    rw [Chain.names, List.map_cons, descend_cons, descend_cons]
    simp only [stops, Record.below_insert_zero missing]

end Validator

namespace CompiledUnit

open Validator

/-- Where records have different names, and the fields of each struct, giving a missing field of a
record the zero value of its kind changes nothing about the validation of the record: it ends in the
same cases, with the same violations. -/
theorem compile_missing {options : Emission.Options} {sourceName source : String}
    {unit : CompiledUnit} (compiled : compile options sourceName source = .ok unit)
    {file : SourceFile} (parsed : SourceFile.parse source.toList = .ok file)
    (distinct : Plan.DistinctRecords file) (fields : file.hasDistinctFields = true) {plan : Plan}
    (hplan : plan ∈ unit.plans) {decl : TypeDecl} (hdecl : decl ∈ file.decls)
    (hrecord : decl.name = plan.record) {declared : List Field}
    (hdeclared : decl.recordFields? = some declared) {field : Field} (hfield : field ∈ declared)
    {name : String} (hname : name ∈ field.names) {record : Record}
    (missing : record.get? name = none) :
    validate (ofPlan plan) unit.validators
        (record.insert name (Value.zero (Kind.ofType file.decls field.type))) =
      validate (ofPlan plan) unit.validators record := by
  obtain ⟨file', parsed', rfl⟩ := compile_eq_ok.1 compiled
  cases parsed.symm.trans parsed'
  obtain ⟨owner, howner, hname', own, hown, leads⟩ := Plan.ofFile_declared hplan
  have same : owner = decl :=
    distinct.unique howner hdecl hown hdeclared (hname'.trans hrecord.symm)
  cases same
  cases hown.symm.trans hdeclared
  have unique := (areDistinct_of_recordFields? fields hdecl hdeclared).unique
  refine validate_congr fun depth => run_of_resolve (fun check hcheck => ?_) depth _
  obtain ⟨chain, leaf, leadsTo⟩ := leads check hcheck
  exact resolve_insert_zero unique leadsTo hfield hname missing

set_option maxRecDepth 4000 in
theorem compile_missing_household :
    ∃ unit, compile .default "a.go" household = .ok unit ∧
      ∃ file, SourceFile.parse household.toList = .ok file ∧
        ∃ plan ∈ unit.plans, ∃ decl ∈ file.decls, decl.name = plan.record ∧
          ∃ declared, decl.recordFields? = some declared ∧
            declared.map (·.names) = [["Home"], ["Next"], ["Age"]] ∧
            ∃ found, validate (ofPlan plan) unit.validators Record.empty = some found ∧
              found.map (·.message) = ["field Home.Name is required", "field Age must be >= 18"] ∧
              ∀ field ∈ declared, ∀ name ∈ field.names,
                validate (ofPlan plan) unit.validators (Record.empty.insert name
                  (Value.zero (Kind.ofType file.decls field.type))) = some found := by
  obtain ⟨file, parsed, facts⟩ := exists_parse (rfl : household = _)
    (p := fun file => decide (Plan.DistinctRecords file) && file.hasDistinctFields &&
      (file.decls.any fun decl => decl.name == "User" &&
        decl.recordFields?.map (·.map (·.names)) == some [["Home"], ["Next"], ["Age"]]) &&
      (Plan.ofFile file).1.any fun plan => plan.record == "User" &&
        (validate (ofPlan plan) ((Plan.ofFile file).1.map ofPlan) Record.empty).map
            (·.map (·.message)) ==
          some ["field Home.Name is required", "field Age must be >= 18"])
    (by decide +kernel)
  simp only [Bool.and_eq_true, decide_eq_true_iff, List.any_eq_true, beq_iff_eq,
    Option.map_eq_some_iff] at facts
  obtain ⟨⟨⟨distinct, fields⟩, decl, hdecl, hname, declared, hdeclared, names⟩, plan, hplan,
    hrecord, found, validated, messages⟩ := facts
  have compiled : compile .default "a.go" household = _ := compile_of_parse parsed
  have same : decl.name = plan.record := hname.trans hrecord.symm
  refine ⟨_, compiled, file, parsed, plan, hplan, decl, hdecl, same, declared, hdeclared, names,
    found, validated, messages, fun field hfield name hmem => ?_⟩
  exact (compile_missing compiled parsed distinct fields hplan hdecl same hdeclared hfield hmem
    rfl).trans validated

end CompiledUnit

end FieldRules
