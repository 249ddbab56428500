/-
Validation terminates where no struct contains itself by value.

Handing over does not always make the instance smaller: a field that is missing is
validated as the empty record, and from the empty record only the empty record is
handed over.  But there every pointer is nil, so a check that hands over is reached
without one, and the record it names is held by value (`contains_of_handsOver`).  So
on the empty record runs go down what records hold, which has no circles
(`ends_empty`).  From any other record what is handed over is less deep or empty, and
induction on the depth does the rest (`ends_of_empty`).
-/
import FieldRules.Proofs.Agreement
import FieldRules.Proofs.Depth
import FieldRules.Proofs.Descent
import FieldRules.Proofs.Resolution
import Mathlib.Data.Fintype.Card
import Mathlib.Data.Set.Finite.Basic

namespace FieldRules

open Go

namespace Validator

variable {lookup : String → Option Validator} {others : List Validator}

/-! ### Runs that end -/

/-- Some checks that all end to some depth, end to one. -/
theorem exists_depth (ends : Nat → Check → Prop) {checks : List Check}
    (mono : ∀ few many, few ≤ many → ∀ check, ends few check → ends many check)
    (each : ∀ check ∈ checks, ∃ depth, ends depth check) :
    ∃ depth, ∀ check ∈ checks, ends depth check := by
  induction checks with
  | nil => exact ⟨0, fun check h => nomatch h⟩
  | cons first checks ih =>
    obtain ⟨few, hfirst⟩ := each first List.mem_cons_self
    obtain ⟨many, hrest⟩ := ih fun check h => each check (List.mem_cons_of_mem _ h)
    refine ⟨max few many, List.forall_mem_cons.2 ⟨?_, fun check h => ?_⟩⟩
    · exact mono _ _ (Nat.le_max_left few many) first hfirst
    · exact mono _ _ (Nat.le_max_right few many) check (hrest check h)

/-- A validator ends on a record if all do that it hands over to. -/
theorem exists_ends {validator : Validator} {record : Record}
    (each : ∀ check ∈ validator.checks, ∀ value, resolve record check = some value →
      ∀ inner, check.delegate.bind lookup = some inner →
        ∃ depth, Ends lookup depth inner (asRecord value)) :
    ∃ depth, Ends lookup depth validator record := by
  have ofCheck : ∀ check ∈ validator.checks, ∃ depth, ∀ value,
      resolve record check = some value → ∀ inner, check.delegate.bind lookup = some inner →
        Ends lookup depth inner (asRecord value) := by
    intro check hcheck
    -- A check hands over one record to one validator at most, so one depth is enough for it.
    cases hvalue : resolve record check with
    | none => exact ⟨0, fun value h => nomatch h⟩
    | some value =>
      cases hinner : check.delegate.bind lookup with
      | none => exact ⟨0, fun _ _ inner h => nomatch h⟩
      | some inner =>
        obtain ⟨depth, ends⟩ := each check hcheck value hvalue inner hinner
        refine ⟨depth, fun other hother another hanother => ?_⟩
        cases hother
        cases hanother
        exact ends
  obtain ⟨depth, ends⟩ := exists_depth _ (fun few many le check h value hvalue inner hinner =>
    (h value hvalue inner hinner).mono le) ofCheck
  exact ⟨depth + 1, ends⟩

/-- Among finitely many validators a strict order has no infinite descent. -/
theorem wellFounded_among {below : Validator → Validator → Prop}
    (trans : ∀ a b c, below a b → below b c → below a c)
    (irrefl : ∀ validator ∈ others, ¬ below validator validator) :
    WellFounded fun a b : {validator // validator ∈ others} => below a.1 b.1 := by
  have finite : Finite {validator // validator ∈ others} := (List.finite_toSet others).to_subtype
  have transitive : IsTrans {validator // validator ∈ others} fun a b => below a.1 b.1 :=
    ⟨fun a b c => trans a.1 b.1 c.1⟩
  have irreflexive : Std.Irrefl fun a b : {validator // validator ∈ others} => below a.1 b.1 :=
    ⟨fun a => irrefl a.1 a.2⟩
  exact Finite.wellFounded_of_trans_of_irrefl _

/-- On the empty record every validator ends, if those that it hands over to there are below it in a
strict order. -/
theorem ends_empty (below : Validator → Validator → Prop)
    (trans : ∀ a b c, below a b → below b c → below a c)
    (irrefl : ∀ validator ∈ others, ¬ below validator validator)
    (step : ∀ validator ∈ others, ∀ check ∈ validator.checks, resolve [] check ≠ none →
      ∀ inner, check.delegate.bind (find? others) = some inner → below inner validator) :
    ∀ validator ∈ others, ∃ depth, Ends (find? others) depth validator [] := by
  suffices all : ∀ validator : {validator // validator ∈ others},
      ∃ depth, Ends (find? others) depth validator.1 [] from
    fun validator hmem => all ⟨validator, hmem⟩
  intro validator
  induction validator using (wellFounded_among trans irrefl).induction with
  | _ validator ih =>
    refine exists_ends fun check hcheck value hvalue inner hinner => ?_
    rw [asRecord_resolve_nil hvalue]
    have reached : resolve [] check ≠ none := by
      rw [hvalue]
      exact Option.some_ne_none value
    obtain ⟨name, -, found⟩ := Option.bind_eq_some_iff.1 hinner
    exact ih ⟨inner, find?_mem found⟩ (step _ validator.2 check hcheck reached inner hinner)

/-- Validators that all end on the empty record, end on every record. -/
theorem ends_of_empty
    (empty : ∀ validator ∈ others, ∃ depth, Ends (find? others) depth validator [])
    (record : Record) {validator : Validator} (hmem : validator ∈ others) :
    ∃ depth, Ends (find? others) depth validator record := by
  induction hdepth : (Value.record record).depth using Nat.strong_induction_on
    generalizing record validator with
  | _ depth ih =>
    refine exists_ends fun check hcheck value hvalue inner hinner => ?_
    obtain ⟨name, -, found⟩ := Option.bind_eq_some_iff.1 hinner
    rcases asRecord_resolve hvalue with none | less
    · rw [none]
      exact empty inner (find?_mem found)
    · exact ih _ (hdepth ▸ less) _ (find?_mem found) rfl

/-- For a run that ends, `validate` has what it reports. -/
theorem Ends.validate {depth : Nat} {validator : Validator} {record : Record}
    (h : Ends (find? others) depth validator record) :
    ∃ found, validate validator others record = some found := by
  obtain ⟨found, hfound⟩ := Option.isSome_iff_exists.1 (run_isSome.2 h)
  exact ⟨found, validate_of_run hfound⟩

end Validator

/-! ### Handing over on the empty record -/

namespace Go.Chain

/-- On the empty record a check is reached only where no pointer is on its way. -/
theorem LeadsTo.byValue {decls : List TypeDecl} {fields : List Field} {chain : Chain}
    {leaf : String × TypeExpr} {check : Check} (leads : LeadsTo decls fields chain leaf check)
    (reached : Validator.resolve [] check ≠ none) : ∀ step ∈ chain, step.2.isPointer = false := by
  intro step hstep
  by_contra pointer
  rw [Bool.not_eq_false] at pointer
  obtain ⟨before, after, rfl⟩ := List.append_of_mem hstep
  rcases Validator.resolve_eq [] leads.path with ⟨-, none⟩ | ⟨free, -⟩
  · exact reached none
  · refine free ⟨names before, step.1, names after, ?_, ?_, ?_⟩
    · rw [leads.path, List.dropLast_concat, names, List.map_append]
      rfl
    · rw [leads.guards]
      exact mem_pointers_iff.2 ⟨before, step, after, rfl, pointer, rfl⟩
    · rw [Record.recordAt_empty]
      rfl

end Go.Chain

namespace Plan

/-- A check that hands over on the empty record names a record that the plan's own record holds by
value. -/
theorem contains_of_handsOver {file : SourceFile} {plan : Plan} (hplan : plan ∈ (ofFile file).1)
    {check : Check} (hcheck : check ∈ plan.checks) {target : String}
    (delegate : check.delegate = some target) (reached : Validator.resolve [] check ≠ none) :
    Relation.TransGen (Contains file.decls) plan.record target := by
  obtain ⟨decl, hdecl, hname, fields, hfields, chain, leaf, leads⟩ := ofFile_leadsTo hplan hcheck
  have held : leaf.2.held ⊆ decl.type.held := by
    rw [Site.recordFields?_type hfields]
    exact leads.declared.held (leads.byValue reached)
  obtain ⟨comparable, record⟩ : ∃ c, check.kind = .record (some target) c := by
    have required := (ofFile_delegate hplan hcheck delegate).1
    unfold target? at required
    split at required
    · next hrecord =>
      cases required
      exact ⟨_, hrecord⟩
    · cases required
  obtain ⟨inner, stands⟩ := Kind.ofType_record (leads.kind.symm.trans record)
  have isRecord : decl.isRecord = true := by
    unfold TypeDecl.isRecord
    rw [hfields]
    rfl
  generalize leaf.2 = type at stands held
  cases type with
  | named name =>
    have direct : Contains file.decls plan.record name :=
      ⟨decl, hdecl, hname, .inl isRecord, held List.mem_cons_self⟩
    exact .head' direct stands.reaches
  | _ => cases stands

end Plan

/-! ### Compiled units -/

/-- Where names have ranks, and what is held by value has a lower rank than its holder, nothing
holds itself. -/
theorem Go.acyclic_of_rank {decls : List TypeDecl} (rank : String → Nat)
    (lower : ∀ decl ∈ decls, ∀ name ∈ decl.type.held, rank name < rank decl.name) (name : String) :
    ¬ Relation.TransGen (Contains decls) name name := by
  refine not_transGen_of_rank rank ?_ name
  rintro outer inner ⟨decl, hdecl, rfl, -, hheld⟩
  exact lower decl hdecl inner hheld

namespace CompiledUnit

/-- Where no struct contains itself by value, validating any instance of any record that has a plan
ends, whatever the instance holds or lacks. -/
theorem compile_terminates {options : Emission.Options} {sourceName source : String}
    {unit : CompiledUnit} (compiled : compile options sourceName source = .ok unit)
    {file : SourceFile} (parsed : SourceFile.parse source.toList = .ok file)
    (acyclic : ∀ decl ∈ file.decls, decl.isRecord = true →
      ¬ Relation.TransGen (Contains file.decls) decl.name decl.name) :
    ∀ plan ∈ unit.plans, ∀ record, ∃ found,
      Validator.validate (Validator.ofPlan plan) unit.validators record = some found := by
  cases (compile_of_parse parsed).symm.trans compiled
  have empty : ∀ validator ∈ (ofFile options sourceName file).validators, ∃ depth,
      Validator.Ends (Validator.find? (ofFile options sourceName file).validators) depth
        validator [] := by
    refine Validator.ends_empty
      (fun inner outer => Relation.TransGen (Contains file.decls) outer.record inner.record)
      (fun a b c lower upper => upper.trans lower) ?_ ?_
    · intro validator hmem
      obtain ⟨plan, hplan, rfl⟩ := List.mem_map.1 hmem
      obtain ⟨decl, hdecl, hname⟩ := List.mem_map.1 (Plan.ofFile_record hplan)
      obtain ⟨hmem, isRecord⟩ := List.mem_filter.1 hdecl
      have free := acyclic decl hmem isRecord
      rw [hname] at free
      exact free
    · intro validator hmem check hcheck reached inner hinner
      obtain ⟨plan, hplan, rfl⟩ := List.mem_map.1 hmem
      obtain ⟨target, delegate, found⟩ := Option.bind_eq_some_iff.1 hinner
      have contains := Plan.contains_of_handsOver hplan hcheck delegate reached
      rw [← Validator.find?_record found] at contains
      exact contains
  intro plan hplan record
  obtain ⟨depth, ends⟩ := Validator.ends_of_empty empty record (List.mem_map_of_mem hplan)
  exact ends.validate

/-- A source with a record that is handed over to itself, from behind a pointer. -/
def linked : String :=
  "package p
  type City struct \x7b
    // +govalid:required
    Name string
  \x7d
  type Node struct \x7b
    // +govalid:required
    Home City
    Next *struct \x7b
      // +govalid:required
      Rest Node
    \x7d
  \x7d
  "

/-- A rank for its names, by which a node is above its city. -/
def linkedRank (name : String) : Nat :=
  if name = "Node" then 2 else if name = "City" then 1 else 0

set_option maxRecDepth 4000 in
theorem compile_terminates_linked :
    ∃ unit, compile .default "a.go" linked = .ok unit ∧
      ∃ file, SourceFile.parse linked.toList = .ok file ∧
        (∀ decl ∈ file.decls, decl.isRecord = true →
          ¬ Relation.TransGen (Contains file.decls) decl.name decl.name) ∧
        (∃ plan ∈ unit.plans, ∃ check ∈ plan.checks, check.delegate = some plan.record) ∧
        ∀ plan ∈ unit.plans, ∀ record, ∃ found,
          Validator.validate (Validator.ofPlan plan) unit.validators record = some found := by
  obtain ⟨file, parsed, facts⟩ := exists_parse (rfl : linked = _)
    (p := fun file =>
      ((Plan.ofFile file).1.any fun plan => plan.checks.any fun check =>
        check.delegate == some plan.record) &&
      file.decls.all fun decl => decl.type.held.all fun name =>
        decide (linkedRank name < linkedRank decl.name))
    (by decide +kernel)
  have compiled : compile .default "a.go" linked = _ := compile_of_parse parsed
  rw [Bool.and_eq_true] at facts
  obtain ⟨self, lower⟩ := facts
  obtain ⟨plan, hplan, self⟩ := List.any_eq_true.1 self
  obtain ⟨check, hcheck, self⟩ := List.any_eq_true.1 self
  have acyclic : ∀ decl ∈ file.decls, decl.isRecord = true →
      ¬ Relation.TransGen (Contains file.decls) decl.name decl.name := by
    intro decl _ _
    refine acyclic_of_rank linkedRank (fun other hother name hname => ?_) decl.name
    exact of_decide_eq_true (List.all_eq_true.1 (List.all_eq_true.1 lower other hother) name hname)
  exact ⟨_, compiled, file, parsed, acyclic, ⟨plan, hplan, check, hcheck, beq_iff_eq.1 self⟩,
    compile_terminates compiled parsed acyclic⟩

end CompiledUnit

end FieldRules
