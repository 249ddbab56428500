/-
The violations of a record, check by check.

A run reports one block for every check, in the order of the checks
(`runChecks_blocks`).  A record that is handed over stands at the path of the check,
and where a record stands only lengthens paths: moving it to another place puts that
place before the path of every violation and changes nothing else, however deep
records are handed over (`run_lifted`).  So the block of a check that hands over is
what the other validator reports by itself, seen from above.
-/
import FieldRules.CompiledUnit
import FieldRules.Proofs.Delegates
import FieldRules.Proofs.Depth
import FieldRules.Proofs.Descent
import FieldRules.Proofs.Parsing

namespace FieldRules

namespace FieldPath

variable {path below : FieldPath}

theorem render_append (ne : path ≠ root) (ne' : below ≠ root) :
    (path.append below).render = path.render ++ "." ++ below.render :=
  String.intercalate_append_of_ne_nil (fun h => ne (congrArg mk h)) (fun h => ne' (congrArg mk h))

theorem append_ne_root (ne : below ≠ root) : path.append below ≠ root := by
  intro h
  have empty : path.segments ++ below.segments = [] := congrArg segments h
  exact ne (congrArg mk (List.append_eq_nil_iff.1 empty).2)

end FieldPath

/-- A violation of a record as it is reported from above: the path of the record stands before its
path, in its message as well, and nothing else is changed. -/
structure Violation.IsBelow (place : FieldPath) (inner outer : Violation) : Prop where
  path : outer.path = place.append inner.path
  rendered : outer.path.render = place.render ++ "." ++ inner.path.render
  rule : outer.rule = inner.rule
  argument : outer.argument = inner.argument
  message : ∃ complaint, inner.message = "field " ++ inner.path.render ++ " " ++ complaint ∧
    outer.message = "field " ++ (place.render ++ "." ++ inner.path.render) ++ " " ++ complaint

namespace Validator

variable {lookup : String → Option Validator}

/-- The path of every check leads to a field. -/
def HasPaths (validator : Validator) : Prop :=
  ∀ check ∈ validator.checks, check.path ≠ FieldPath.root

/-- The validator ends on a record and reports some violations. -/
def Reports (lookup : String → Option Validator) (validator : Validator) (record : Record)
    (found : List Violation) : Prop :=
  ∃ depth, run lookup depth validator record FieldPath.root = some found

theorem reports_iff_validate {validator : Validator} {others : List Validator} {record : Record}
    {found : List Violation} :
    Reports (find? others) validator record found ↔ validate validator others record = some found :=
  ⟨fun ⟨_, h⟩ => validate_of_run h, fun h => ⟨_, h⟩⟩

/-- What a validator reports on a record is determined, whatever depth it is run to. -/
theorem Reports.unique {validator : Validator} {record : Record} {found other : List Violation}
    (h : Reports lookup validator record found) (h' : Reports lookup validator record other) :
    found = other := by
  obtain ⟨few, hfound⟩ := h
  obtain ⟨many, hother⟩ := h'
  rcases Nat.le_total few many with le | le
  · exact Option.some.inj ((run_mono le hfound).symm.trans hother)
  · exact Option.some.inj (hfound.symm.trans (run_mono le hother))

/-! ### Moving a record -/

theorem violation_isBelow {above path : FieldPath} (ne : above ≠ FieldPath.root)
    (ne' : path ≠ FieldPath.root) (check : Check) (complaint : String) :
    Violation.IsBelow above (violation check path complaint)
      (violation check (above.append path) complaint) := by
  have rendered := FieldPath.render_append ne ne'
  refine ⟨rfl, rendered, rfl, rfl, complaint, rfl, ?_⟩
  show "field " ++ (above.append path).render ++ " " ++ complaint = _
  rw [rendered]
  rfl

theorem judge_lifted {above path : FieldPath} (ne : above ≠ FieldPath.root)
    (ne' : path ≠ FieldPath.root) (check : Check) (value : Value) :
    List.Forall₂ (Violation.IsBelow above) (judge check path value)
      (judge check (above.append path) value) := by
  unfold judge
  split
  · exact .cons (violation_isBelow ne ne' check _) .nil
  · split
    · exact .cons (violation_isBelow ne ne' check _) .nil
    · exact .nil

/-- Moving a record to a place puts the place before the path of every violation. -/
theorem run_lifted (paths : ∀ name inner, lookup name = some inner → inner.HasPaths)
    {above : FieldPath} (ne : above ≠ FieldPath.root) {depth : Nat} {validator : Validator}
    (own : validator.HasPaths) {record : Record} {place : FieldPath} {found : List Violation}
    (h : run lookup depth validator record place = some found) :
    ∃ lifted, run lookup depth validator record (above.append place) = some lifted ∧
      List.Forall₂ (Violation.IsBelow above) found lifted := by
  induction depth generalizing validator record place found with
  | zero => cases h
  | succ depth ih =>
    rw [run] at h ⊢
    refine runChecks_related (fun check hcheck here hhere => ?_) h
    unfold runCheck at hhere ⊢
    split at hhere
    · cases hhere
      exact ⟨[], rfl, .nil⟩
    · next value _ =>
      simp only [FieldPath.append_append] at hhere ⊢
      split at hhere
      · next inner hinner =>
        obtain ⟨name, -, hname⟩ := Option.bind_eq_some_iff.1 hinner
        exact ih (paths name inner hname) hhere
      · cases hhere
        exact ⟨_, rfl, judge_lifted ne (FieldPath.append_ne_root (own check hcheck)) check value⟩

/-! ### Blocks -/

/-- What some checks report is what each of them reports, one after the other. -/
theorem runChecks_blocks {run : Check → Option (List Violation)} {checks : List Check}
    {found : List Violation} (h : runChecks run checks = some found) :
    ∃ blocks, List.Forall₂ (fun check block => run check = some block) checks blocks ∧
      found = blocks.flatten := by
  induction checks generalizing found with
  | nil =>
    cases h
    exact ⟨[], .nil, rfl⟩
  | cons check checks ih =>
    rw [runChecks] at h
    cases hcheck : run check with
    | none => rw [hcheck] at h; cases h
    | some here =>
      rw [hcheck] at h
      obtain ⟨rest, hrest, rfl⟩ := Option.map_eq_some_iff.1 h
      obtain ⟨blocks, all, rfl⟩ := ih hrest
      exact ⟨here :: blocks, .cons hcheck all, rfl⟩

/-- The block of a check: nothing behind a nil guard, what the validator reports by itself that the
check hands over to, or what the check has to say of its value, which is one violation at most. -/
inductive IsBlock (lookup : String → Option Validator) (record : Record) (check : Check) :
    List Violation → Prop where
  | behindNil : IsBehindNil record check → IsBlock lookup record check []
  | handedOver {target : String} {inner : Validator} {found block : List Violation} :
      ¬ IsBehindNil record check → check.delegate = some target → lookup target = some inner →
      Reports lookup inner (record.recordAt check.path.segments) found →
      List.Forall₂ (Violation.IsBelow check.path) found block →
      IsBlock lookup record check block
  | judged {value : Value} {block : List Violation} :
      ¬ IsBehindNil record check → check.delegate.bind lookup = none →
      resolve record check = some value → block = judge check check.path value →
      block.length ≤ 1 → (∀ violation ∈ block, violation.path = check.path) →
      IsBlock lookup record check block

/-- A check makes one complaint of a value at most, under its own rule. -/
theorem judge_cases (check : Check) (path : FieldPath) (value : Value) :
    judge check path value = [] ∨
      ∃ complaint, judge check path value = [violation check path complaint] := by
  unfold judge
  split
  · exact .inr ⟨_, rfl⟩
  · split
    · exact .inr ⟨_, rfl⟩
    · exact .inl rfl

theorem judge_length (check : Check) (path : FieldPath) (value : Value) :
    (judge check path value).length ≤ 1 := by
  rcases judge_cases check path value with h | ⟨complaint, h⟩
  · rw [h]
    exact Nat.zero_le 1
  · rw [h]
    exact Nat.le_refl 1

theorem judge_path {check : Check} {path : FieldPath} {value : Value} {found : Violation}
    (h : found ∈ judge check path value) : found.path = path := by
  rcases judge_cases check path value with none | ⟨complaint, one⟩
  · rw [none] at h
    cases h
  · rw [one] at h
    rw [List.mem_singleton.1 h]
    rfl

theorem runCheck_isBlock (paths : ∀ name inner, lookup name = some inner → inner.HasPaths)
    {record : Record} {check : Check} (path : check.path ≠ FieldPath.root) {depth : Nat}
    {block : List Violation}
    (h : runCheck lookup (run lookup depth) record FieldPath.root check = some block) :
    IsBlock lookup record check block := by
  unfold runCheck at h
  cases hvalue : resolve record check with
  | none =>
    rw [hvalue] at h
    cases h
    exact .behindNil ((resolve_eq_none path).1 hvalue)
  | some value =>
    have free : ¬ IsBehindNil record check := by
      rw [← resolve_eq_none path, hvalue]
      exact Option.some_ne_none value
    simp only [hvalue, FieldPath.root_append] at h
    cases hinner : check.delegate.bind lookup with
    | none =>
      rw [hinner] at h
      cases h
      exact .judged free hinner hvalue rfl (judge_length _ _ _) fun _ => judge_path
    | some inner =>
      rw [hinner] at h
      obtain ⟨target, hdelegate, hlookup⟩ := Option.bind_eq_some_iff.1 hinner
      have run : run lookup depth inner (asRecord value) check.path = some block := h
      have ends : Ends lookup depth inner (asRecord value) := run_isSome.1 (by rw [run]; rfl)
      obtain ⟨found, hfound⟩ := Option.isSome_iff_exists.1 (run_isSome.2 ends)
      obtain ⟨lifted, hlifted, below⟩ := run_lifted paths path (paths target inner hlookup) hfound
      rw [FieldPath.append_root] at hlifted
      have same : lifted = block := Option.some.inj (hlifted.symm.trans run)
      rw [asRecord_resolve_eq path hvalue] at hfound
      exact .handedOver free hdelegate hlookup ⟨depth, hfound⟩ (same ▸ below)

/-- In a compiled unit every check that hands over finds the validator of its record. -/
theorem find?_delegate {file : Go.SourceFile} {plan : Plan} (hplan : plan ∈ (Plan.ofFile file).1)
    {check : Check} (hcheck : check ∈ plan.checks) {target : String}
    (delegate : check.delegate = some target) :
    ∃ inner, find? ((Plan.ofFile file).1.map ofPlan) target = some inner ∧
      inner.record = target := by
  obtain ⟨other, hother, hname⟩ := List.mem_map.1 (Plan.ofFile_delegate hplan hcheck delegate).2
  have found : (find? ((Plan.ofFile file).1.map ofPlan) target).isSome = true :=
    List.find?_isSome.2 ⟨ofPlan other, List.mem_map_of_mem hother, beq_iff_eq.2 hname⟩
  obtain ⟨inner, hinner⟩ := Option.isSome_iff_exists.1 found
  exact ⟨inner, hinner, find?_record hinner⟩

/-- What a validator reports is one block for every check, in the order of its checks; and in a
compiled unit every check that hands over finds its validator. -/
theorem reports_blocks {validator : Validator} {record : Record} {found : List Violation}
    (own : validator.HasPaths) (paths : ∀ name inner, lookup name = some inner → inner.HasPaths)
    (reports : Reports lookup validator record found) :
    (∃ blocks, List.Forall₂ (IsBlock lookup record) validator.checks blocks ∧
      found = blocks.flatten) ∧
    ∀ options sourceName source unit, CompiledUnit.compile options sourceName source = .ok unit →
      ∀ plan ∈ unit.plans, ∀ check ∈ plan.checks, ∀ target, check.delegate = some target →
        ∃ inner, find? unit.validators target = some inner ∧ inner.record = target := by
  constructor
  · obtain ⟨depth, h⟩ := reports
    cases depth with
    | zero => cases h
    | succ depth =>
      rw [run] at h
      obtain ⟨blocks, all, rfl⟩ := runChecks_blocks h
      refine ⟨blocks, ?_, rfl⟩
      rw [List.forall₂_iff_zip] at all ⊢
      refine ⟨all.1, fun {check block} hmem => ?_⟩
      exact runCheck_isBlock paths (own check (List.of_mem_zip hmem).1) (all.2 hmem)
  · intro options sourceName source unit compiled plan hplan check hcheck target delegate
    obtain ⟨file, -, rfl⟩ := CompiledUnit.compile_eq_ok.1 compiled
    exact find?_delegate hplan hcheck delegate

/-- A source with a record that is handed over to, also from behind a pointer. -/
def household : String :=
  "package p
  type City struct \x7b
    // +govalid:required
    Name string
  \x7d
  type User struct \x7b
    // +govalid:required
    Home City
    Next *struct \x7b
      // +govalid:required
      Old City
    \x7d
    // +govalid:gte=18
    Age int
  \x7d
  "

set_option maxRecDepth 4000 in
theorem reports_blocks_household :
    ∃ unit, CompiledUnit.compile .default "a.go" household = .ok unit ∧
      ∃ user, find? unit.validators "User" = some user ∧ user.HasPaths ∧
        (∀ name inner, find? unit.validators name = some inner → inner.HasPaths) ∧
        ∃ found, Reports (find? unit.validators) user [("Age", .int 3)] found ∧
          found.map (·.message) = ["field Home.Name is required", "field Age must be >= 18"] ∧
          (∃ blocks, List.Forall₂ (IsBlock (find? unit.validators) [("Age", .int 3)])
            user.checks blocks ∧ found = blocks.flatten) ∧
          ∀ options sourceName source other,
            CompiledUnit.compile options sourceName source = .ok other →
              ∀ plan ∈ other.plans, ∀ check ∈ plan.checks, ∀ target,
                check.delegate = some target →
                  ∃ inner, find? other.validators target = some inner ∧ inner.record = target := by
  obtain ⟨file, parsed, facts⟩ := Go.exists_parse (rfl : household = _)
    (p := fun file =>
      let validators := (Plan.ofFile file).1.map ofPlan
      (validators.all fun validator => validator.checks.all (·.path != FieldPath.root)) &&
        ((find? validators "User").bind fun user =>
          (user.validate validators [("Age", .int 3)]).map (·.map (·.message))) ==
            some ["field Home.Name is required", "field Age must be >= 18"])
    (by decide +kernel)
  have compiled : CompiledUnit.compile .default "a.go" household = _ :=
    CompiledUnit.compile_of_parse parsed
  rw [Bool.and_eq_true, beq_iff_eq, List.all_eq_true] at facts
  obtain ⟨paths, reported⟩ := facts
  have hasPaths : ∀ name inner,
      find? (CompiledUnit.ofFile .default "a.go" file).validators name = some inner →
        inner.HasPaths := by
    intro name inner found check hcheck
    exact bne_iff_ne.1 (List.all_eq_true.1 (paths inner (find?_mem found)) check hcheck)
  obtain ⟨user, huser, validated⟩ := Option.bind_eq_some_iff.1 reported
  obtain ⟨found, hfound, messages⟩ := Option.map_eq_some_iff.1 validated
  have reports := reports_iff_validate.2 hfound
  exact ⟨_, compiled, user, huser, hasPaths _ _ huser, hasPaths, found, reports, messages,
    reports_blocks (hasPaths _ _ huser) hasPaths reports⟩

end Validator
end FieldRules
