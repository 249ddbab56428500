/-
Values that are not of the kind of their field.

A check that runs no other validator reports such a value at its own path.  A check
that hands over does not look at the value: what is no record is handed over as the
empty record, and the other validator may find no fault with that.  So a mistyped
value is passed over in silence exactly where it is handed over to a validator that
reports nothing on an empty record (`compile_mismatch`), and that does happen
(`compile_mismatch_unheard`).
-/
import FieldRules.Proofs.Agreement
import FieldRules.Proofs.Blocks

namespace FieldRules

open Go

namespace Validator

variable {lookup : String → Option Validator} {record : Record} {check : Check} {value : Value}

/-- A record gives the field of a check a value. -/
def Holds (record : Record) (check : Check) (value : Value) : Prop :=
  ∃ names leaf, check.path.segments = names ++ [leaf] ∧
    (record.recordAt names).get? leaf = some value

theorem Holds.path (h : Holds record check value) : check.path ≠ FieldPath.root := by
  obtain ⟨names, leaf, place, -⟩ := h
  intro root
  rw [root] at place
  exact List.append_ne_nil_of_right_ne_nil names (List.cons_ne_nil leaf []) place.symm

/-- A value that is held in front of all nil guards is what the check is about. -/
theorem Holds.resolve (h : Holds record check value) (free : ¬ IsBehindNil record check) :
    Validator.resolve record check = some value := by
  obtain ⟨names, leaf, place, held⟩ := h
  rcases resolve_eq record place with ⟨behind, -⟩ | ⟨-, found⟩
  · exact absurd behind free
  · rw [found, held]
    rfl

/-- What is no record is handed over as the empty record. -/
theorem Holds.recordAt (h : Holds record check value) (free : ¬ IsBehindNil record check)
    {owner : Option String} {comparable : Bool} (isRecord : check.kind = .record owner comparable)
    (mismatch : value.conforms check.kind = false) :
    record.recordAt check.path.segments = Record.empty := by
  rw [← asRecord_resolve_eq h.path (h.resolve free)]
  rw [isRecord] at mismatch
  cases value with
  | record fields => cases mismatch
  | _ => rfl

theorem not_isBehindNil_of_unguarded (unguarded : check.guards = []) :
    ¬ IsBehindNil record check := by
  rintro ⟨before, name, after, -, guarded, -⟩
  rw [unguarded] at guarded
  cases guarded

/-- What the check hands over to reports nothing on an empty record. -/
def IsUnheard (lookup : String → Option Validator) (check : Check) : Prop :=
  ∃ target inner, check.delegate = some target ∧ lookup target = some inner ∧
    Reports lookup inner Record.empty []

theorem judge_mismatch (mismatch : value.conforms check.kind = false) (path : FieldPath) :
    judge check path value = [violation check path ("must be of kind " ++ check.kind.describe)] := by
  unfold judge
  rw [mismatch]
  rfl

/-- The block of a check about a value of another kind: the complaint about the kind where no other
validator is run, and what that one reports on an empty record where one is. -/
theorem IsBlock.of_mismatch {block : List Violation} (h : IsBlock lookup record check block)
    (free : ¬ IsBehindNil record check) (held : Holds record check value)
    (mismatch : value.conforms check.kind = false)
    (handsRecords : ∀ target, check.delegate = some target →
      ∃ owner comparable, check.kind = .record owner comparable)
    (answered : ∀ target, check.delegate = some target → (lookup target).isSome = true) :
    (∀ violation ∈ block, ∃ below, violation.path = check.path.append below) ∧
      (check.delegate = none →
        block = [violation check check.path ("must be of kind " ++ check.kind.describe)]) ∧
      (block = [] ↔ IsUnheard lookup check) := by
  cases h with
  | behindNil behind => exact absurd behind free
  | @handedOver target inner found _ _ delegate looked reports below =>
    obtain ⟨owner, comparable, isRecord⟩ := handsRecords target delegate
    rw [held.recordAt free isRecord mismatch] at reports
    refine ⟨?_, ?_, ?_⟩
    · intro violation hviolation
      obtain ⟨i, hi, rfl⟩ := List.getElem_of_mem hviolation
      have bound : i < found.length := by rw [below.length_eq]; exact hi
      exact ⟨_, (below.get bound hi).path⟩
    · intro own
      rw [own] at delegate
      cases delegate
    · constructor
      · rintro rfl
        cases below
        exact ⟨target, inner, delegate, looked, reports⟩
      · rintro ⟨target', inner', delegate', looked', silent⟩
        cases delegate.symm.trans delegate'
        cases looked.symm.trans looked'
        rw [reports.unique silent] at below
        cases below
        rfl
  | @judged other _ _ alone resolved judged _ _ =>
    have own : check.delegate = none := by
      cases delegate : check.delegate with
      | none => rfl
      | some target =>
        have found := answered target delegate
        rw [delegate, Option.bind_some] at alone
        rw [alone] at found
        cases found
    cases resolved.symm.trans (held.resolve free)
    rw [judge_mismatch mismatch] at judged
    refine ⟨?_, fun _ => judged, ?_⟩
    · intro violation hviolation
      rw [judged, List.mem_singleton] at hviolation
      exact ⟨FieldPath.root, by rw [hviolation, FieldPath.append_root]; rfl⟩
    · constructor
      · intro empty
        rw [judged] at empty
        cases empty
      · rintro ⟨target, -, delegate, -⟩
        rw [own] at delegate
        cases delegate

/-- Among what a validator reports there is the block of every check. -/
theorem exists_block {validator : Validator} {found : List Violation} (own : validator.HasPaths)
    (paths : ∀ name inner, lookup name = some inner → inner.HasPaths)
    (reports : Reports lookup validator record found) (hcheck : check ∈ validator.checks) :
    ∃ block, block.Sublist found ∧ IsBlock lookup record check block := by
  obtain ⟨depth, h⟩ := reports
  cases depth with
  | zero => cases h
  | succ depth =>
    rw [run] at h
    obtain ⟨blocks, all, rfl⟩ := runChecks_blocks h
    obtain ⟨i, hi, rfl⟩ := List.getElem_of_mem hcheck
    have bound : i < blocks.length := all.length_eq ▸ hi
    exact ⟨blocks[i], List.sublist_flatten_of_mem (List.getElem_mem bound),
      runCheck_isBlock paths (own _ hcheck) (all.get hi bound)⟩

end Validator

namespace Plan

/-- Every check that hands over is about a record. -/
theorem target?_record {check : Check} {name : String} (h : target? check = some name) :
    ∃ owner comparable, check.kind = .record owner comparable := by
  unfold target? at h
  split at h
  · next kind => exact ⟨_, _, kind⟩
  · cases h

/-- The path of every check of a file's plans leads to a field. -/
theorem ofFile_hasPaths {file : SourceFile} {plan : Plan} (hplan : plan ∈ (ofFile file).1) :
    (Validator.ofPlan plan).HasPaths := by
  intro check hcheck root
  obtain ⟨decl, -, -, fields, -, chain, leaf, leads⟩ := ofFile_leadsTo hplan hcheck
  have place := leads.path
  rw [root] at place
  exact List.append_ne_nil_of_right_ne_nil _ (List.cons_ne_nil leaf.1 []) place.symm

theorem find?_hasPaths {file : SourceFile} {name : String} {inner : Validator}
    (h : Validator.find? ((ofFile file).1.map Validator.ofPlan) name = some inner) :
    inner.HasPaths := by
  obtain ⟨plan, hplan, rfl⟩ := List.mem_map.1 (Validator.find?_mem h)
  exact ofFile_hasPaths hplan

end Plan

namespace CompiledUnit

open Validator

/-- Where a check stands in front of all nil guards and the instance holds a value of another kind,
validation reports something at the path of the check or below it, unless the check hands over to a
validator that reports nothing on an empty record.  What the check adds to the report is its block:
the complaint about the kind where no other validator is run, and nothing at all exactly where the
other validator reports nothing on an empty record. -/
theorem compile_mismatch {options : Emission.Options} {sourceName source : String}
    {unit : CompiledUnit} (compiled : compile options sourceName source = .ok unit) {plan : Plan}
    (hplan : plan ∈ unit.plans) {record : Record} {found : List Violation}
    (reports : Reports (find? unit.validators) (ofPlan plan) record found) {check : Check}
    (hcheck : check ∈ plan.checks) (free : ¬ IsBehindNil record check) {value : Value}
    (held : Holds record check value) (mismatch : value.conforms check.kind = false) :
    (¬ IsUnheard (find? unit.validators) check →
      ∃ violation ∈ found, ∃ below, violation.path = check.path.append below) ∧
    ∃ block, block.Sublist found ∧
      (∀ violation ∈ block, ∃ below, violation.path = check.path.append below) ∧
      (check.delegate = none →
        block = [violation check check.path ("must be of kind " ++ check.kind.describe)]) ∧
      (block = [] ↔ IsUnheard (find? unit.validators) check) := by
  obtain ⟨file, -, rfl⟩ := compile_eq_ok.1 compiled
  have paths : ∀ name inner, find? (ofFile options sourceName file).validators name = some inner →
      inner.HasPaths := fun _ _ => Plan.find?_hasPaths
  obtain ⟨block, sub, isBlock⟩ := exists_block (Plan.ofFile_hasPaths hplan) paths reports hcheck
  obtain ⟨below, own, empty⟩ := isBlock.of_mismatch free held mismatch
    (fun target delegate => Plan.target?_record (Plan.ofFile_delegate hplan hcheck delegate).1)
    (fun target delegate => by
      obtain ⟨inner, hinner, -⟩ := find?_delegate hplan hcheck delegate
      exact Option.isSome_iff_exists.2 ⟨inner, hinner⟩)
  refine ⟨fun heard => ?_, block, sub, below, own, empty⟩
  obtain ⟨violation, hviolation⟩ := List.exists_mem_of_ne_nil block (mt empty.1 heard)
  exact ⟨violation, sub.subset hviolation, below violation hviolation⟩

/-- A source with two required records, one of which may be empty. -/
def shipment : String :=
  "package p
  type Box struct \x7b
    // +govalid:lte=5
    Width int
  \x7d
  type Owner struct \x7b
    // +govalid:required
    Name string
  \x7d
  type Shipment struct \x7b
    // +govalid:required
    Box Box
    // +govalid:required
    Owner Owner
  \x7d
  "

set_option maxRecDepth 4000 in
theorem parse_shipment :
    ∃ file, SourceFile.parse shipment.toList = .ok file ∧
      ∃ plan ∈ (Plan.ofFile file).1,
        (∀ name ∈ ["Box", "Owner"], ∃ check ∈ plan.checks, check.path = ⟨[name]⟩ ∧
          check.guards = [] ∧ (Value.int 3).conforms check.kind = false) ∧
        Reports (find? ((Plan.ofFile file).1.map ofPlan)) (ofPlan plan)
          [("Box", .int 3), ("Owner", .record [("Name", .text "x")])] [] ∧
        ∃ found, Reports (find? ((Plan.ofFile file).1.map ofPlan)) (ofPlan plan)
          [("Box", .int 3), ("Owner", .int 3)] found ∧
          found.map (·.message) = ["field Owner.Name is required"] := by
  obtain ⟨file, parsed, facts⟩ := exists_parse (rfl : shipment = _)
    (p := fun file =>
      let messages (plan : Plan) (record : Record) :=
        ((ofPlan plan).validate ((Plan.ofFile file).1.map ofPlan) record).map (·.map (·.message))
      (Plan.ofFile file).1.any fun plan =>
        (["Box", "Owner"].all fun name => plan.checks.any fun check => check.path == ⟨[name]⟩ &&
          check.guards.isEmpty && !(Value.int 3).conforms check.kind) &&
        messages plan [("Box", .int 3), ("Owner", .record [("Name", .text "x")])] == some [] &&
        messages plan [("Box", .int 3), ("Owner", .int 3)] ==
          some ["field Owner.Name is required"])
    (by decide +kernel)
  obtain ⟨plan, hplan, facts⟩ := List.any_eq_true.1 facts
  simp only [Bool.and_eq_true, List.all_eq_true, beq_iff_eq, Option.map_eq_some_iff] at facts
  obtain ⟨⟨checks, silent, hsilent, none⟩, found, hfound, messages⟩ := facts
  cases List.map_eq_nil_iff.1 none
  refine ⟨file, parsed, plan, hplan, fun name hname => ?_, reports_iff_validate.2 hsilent, found,
    reports_iff_validate.2 hfound, messages⟩
  obtain ⟨check, hcheck, facts⟩ := List.any_eq_true.1 (checks name hname)
  simp only [Bool.and_eq_true, beq_iff_eq, List.isEmpty_iff, Bool.not_eq_true'] at facts
  exact ⟨check, hcheck, facts.1.1, facts.1.2, facts.2⟩

theorem compile_mismatch_heard :
    ∃ unit, compile .default "a.go" shipment = .ok unit ∧
      ∃ plan ∈ unit.plans, ∃ found,
        Reports (find? unit.validators) (ofPlan plan) [("Box", .int 3), ("Owner", .int 3)] found ∧
        found.map (·.message) = ["field Owner.Name is required"] ∧
        ∃ check ∈ plan.checks, check.path = ⟨["Owner"]⟩ ∧
          ¬ IsBehindNil [("Box", .int 3), ("Owner", .int 3)] check ∧
          Holds [("Box", .int 3), ("Owner", .int 3)] check (.int 3) ∧
          (Value.int 3).conforms check.kind = false ∧
          (¬ IsUnheard (find? unit.validators) check →
            ∃ violation ∈ found, ∃ below, violation.path = check.path.append below) ∧
          ∃ block, block.Sublist found ∧
            (∀ violation ∈ block, ∃ below, violation.path = check.path.append below) ∧
            (check.delegate = none →
              block = [violation check check.path ("must be of kind " ++ check.kind.describe)]) ∧
            (block = [] ↔ IsUnheard (find? unit.validators) check) := by
  obtain ⟨file, parsed, plan, hplan, checks, -, found, reports, messages⟩ := parse_shipment
  obtain ⟨check, hcheck, path, guards, mismatch⟩ := checks "Owner" (by decide)
  have compiled : compile .default "a.go" shipment = _ := compile_of_parse parsed
  have free : ¬ IsBehindNil [("Box", .int 3), ("Owner", .int 3)] check :=
    not_isBehindNil_of_unguarded guards
  have held : Holds [("Box", .int 3), ("Owner", .int 3)] check (.int 3) :=
    ⟨[], "Owner", by rw [path]; rfl, rfl⟩
  exact ⟨_, compiled, plan, hplan, found, reports, messages, check, hcheck, path, free, held, mismatch,
    compile_mismatch compiled hplan reports hcheck free held mismatch⟩

/-- A number in the place of a required record is accepted in silence, where the record may be
empty. -/
theorem compile_mismatch_unheard :
    ∃ unit, compile .default "a.go" shipment = .ok unit ∧
      ∃ plan ∈ unit.plans, ∃ record,
        Reports (find? unit.validators) (ofPlan plan) record [] ∧
        ∃ check ∈ plan.checks, ¬ IsBehindNil record check ∧
          ∃ value, Holds record check value ∧ value.conforms check.kind = false := by
  obtain ⟨file, parsed, plan, hplan, checks, silent, -⟩ := parse_shipment
  obtain ⟨check, hcheck, path, guards, mismatch⟩ := checks "Box" (by decide)
  have compiled : compile .default "a.go" shipment = _ := compile_of_parse parsed
  exact ⟨_, compiled, plan, hplan, _, silent, check, hcheck, not_isBehindNil_of_unguarded guards,
    .int 3, ⟨[], "Box", by rw [path]; rfl, rfl⟩, mismatch⟩

end CompiledUnit

end FieldRules
