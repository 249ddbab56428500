/-
An artifact is authoritative exactly when nothing that it leads to is in doubt.

`HandsOver` is the relation between a record and those that the checks of its
plan hand over to.  The passes of `unsettled` collect the records from which one
with a diagnostic can be reached along it.  Nothing else is ever added
(`Spreads.sound`), and what a pass without effect leaves is closed under it
(`Spreads.closed`), so the order of the plans does not count, nor do circles.

The proofs go over `Spreads`, the passes without a bound on their number.  A pass
that is not the last adds a planned record, so the bound is never used up
(`spreadAll_ends`).
-/
import FieldRules.CompiledUnit
import FieldRules.Proofs.Delegates
import FieldRules.Proofs.Parsing
import Mathlib.Logic.Relation

namespace FieldRules

open Go

namespace Plan

/-- Whether a check in the plan of a record hands over to another record. -/
def HandsOver (plans : List Plan) (record target : String) : Prop :=
  ∃ plan ∈ plans, plan.record = record ∧ ∃ check ∈ plan.checks, check.delegate = some target

/-- Passes up to the first that adds nothing. -/
inductive Spreads (plans : List Plan) : List String → List String → Prop where
  | last {records : List String} : (spread plans records).length = records.length →
      Spreads plans records (spread plans records)
  | more {records all : List String} : (spread plans records).length ≠ records.length →
      Spreads plans (spread plans records) all → Spreads plans records all

theorem handsOverTo_iff {targets : List String} {plan : Plan} :
    plan.handsOverTo targets = true ↔
      ∃ check ∈ plan.checks, ∃ target ∈ targets, check.delegate = some target := by
  unfold handsOverTo
  rw [List.any_eq_true]
  refine exists_congr fun check => and_congr_right fun _ => ?_
  cases check.delegate <;> simp

/-! ### One pass -/

/-- A pass adds names of plans that were not found before. -/
theorem spread_adds (plans : List Plan) (records : List String) :
    ∃ added, spread plans records = records ++ added ∧
      ∀ name ∈ added, name ∉ records ∧ name ∈ names plans := by
  induction plans generalizing records with
  | nil => exact ⟨[], (List.append_nil _).symm, fun name h => nomatch h⟩
  | cons plan plans ih =>
    rw [spread]
    split
    · next adds =>
      obtain ⟨added, spreads, new⟩ := ih (records ++ [plan.record])
      have fresh : plan.record ∉ records := by
        rw [Bool.and_eq_true] at adds
        simpa using adds.2
      refine ⟨plan.record :: added, by rw [spreads, List.append_assoc]; rfl, fun name hname => ?_⟩
      rcases List.mem_cons.1 hname with rfl | hname
      · exact ⟨fresh, List.mem_cons_self⟩
      · obtain ⟨absent, planned⟩ := new name hname
        exact ⟨fun h => absent (List.mem_append_left _ h), List.mem_cons_of_mem _ planned⟩
    · obtain ⟨added, spreads, new⟩ := ih records
      exact ⟨added, spreads, fun name hname =>
        ⟨(new name hname).1, List.mem_cons_of_mem _ (new name hname).2⟩⟩

theorem subset_spread (plans : List Plan) (records : List String) :
    records ⊆ spread plans records := by
  obtain ⟨added, spreads, -⟩ := spread_adds plans records
  rw [spreads]
  exact List.subset_append_left _ _

/-- What holds of the records found, and of every record that hands over to one it holds of, holds of
all that a pass leaves. -/
theorem spread_sound {plans : List Plan} {Q : String → Prop}
    (step : ∀ record target, HandsOver plans record target → Q target → Q record)
    {records : List String} (found : ∀ name ∈ records, Q name) :
    ∀ name ∈ spread plans records, Q name := by
  induction plans generalizing records with
  | nil => exact found
  | cons plan plans ih =>
    have steps : ∀ record target, HandsOver plans record target → Q target → Q record :=
      fun record target ⟨other, hother, rest⟩ =>
        step record target ⟨other, List.mem_cons_of_mem _ hother, rest⟩
    rw [spread]
    split
    · next adds =>
      refine ih steps fun name hname => ?_
      rcases List.mem_append.1 hname with hname | hname
      · exact found name hname
      · rw [List.mem_singleton.1 hname]
        rw [Bool.and_eq_true, handsOverTo_iff] at adds
        obtain ⟨⟨check, hcheck, target, htarget, delegate⟩, -⟩ := adds
        exact step plan.record target ⟨plan, List.mem_cons_self, rfl, check, hcheck, delegate⟩
          (found target htarget)
    · exact ih steps found

/-- After a pass without effect every record that hands over to one found is found. -/
theorem spread_closed {plans : List Plan} {records : List String}
    (idle : (spread plans records).length = records.length) {record target : String}
    (hands : HandsOver plans record target) (htarget : target ∈ records) : record ∈ records := by
  induction plans with
  | nil =>
    obtain ⟨plan, hplan, -⟩ := hands
    cases hplan
  | cons first plans ih =>
    rw [spread] at idle
    split at idle
    · -- The pass has added a record and takes none away.
      obtain ⟨added, spreads, -⟩ := spread_adds plans (records ++ [first.record])
      rw [spreads, List.length_append, List.length_append, List.length_singleton] at idle
      omega
    · next adds =>
      obtain ⟨plan, hplan, rfl, check, hcheck, delegate⟩ := hands
      rcases List.mem_cons.1 hplan with rfl | hplan
      · have hands : plan.handsOverTo records = true :=
          handsOverTo_iff.2 ⟨check, hcheck, target, htarget, delegate⟩
        rw [hands, Bool.true_and, Bool.not_eq_true', Bool.not_eq_false] at adds
        exact List.contains_iff_mem.1 adds
      · exact ih idle ⟨plan, hplan, rfl, check, hcheck, delegate⟩

theorem spread_idle {plans : List Plan} {records : List String}
    (idle : (spread plans records).length = records.length) : spread plans records = records := by
  obtain ⟨added, spreads, -⟩ := spread_adds plans records
  rw [spreads, List.length_append] at idle
  rw [spreads, List.length_eq_zero_iff.1 (by omega : added.length = 0), List.append_nil]

/-! ### All passes -/

/-- The plans of records that are not found yet. -/
def notFound (plans : List Plan) (records : List String) : List Plan :=
  plans.filter fun plan => !records.contains plan.record

/-- A pass that has an effect leaves fewer plans whose records are not found. -/
theorem notFound_spread_lt {plans : List Plan} {records : List String}
    (effect : (spread plans records).length ≠ records.length) :
    (notFound plans (spread plans records)).length < (notFound plans records).length := by
  obtain ⟨added, spreads, new⟩ := spread_adds plans records
  have some : added ≠ [] := fun none => effect (by rw [spreads, none, List.append_nil])
  obtain ⟨name, hname⟩ := List.exists_mem_of_ne_nil added some
  obtain ⟨absent, planned⟩ := new name hname
  obtain ⟨plan, hplan, rfl⟩ := List.mem_map.1 planned
  have fewer : (notFound plans (spread plans records)).Sublist (notFound plans records) := by
    refine List.monotone_filter_right plans fun other h => ?_
    simp only [Bool.not_eq_true', List.contains_eq_mem, decide_eq_false_iff_not] at h ⊢
    exact fun found => h (subset_spread plans records found)
  refine Nat.lt_of_le_of_ne fewer.length_le fun same => ?_
  have before : plan ∈ notFound plans records := List.mem_filter.2 ⟨hplan, by simpa using absent⟩
  rw [← fewer.eq_of_length same] at before
  have after := (List.mem_filter.1 before).2
  rw [spreads] at after
  simp [hname] at after

theorem spreadAll_spreads {plans : List Plan} {fuel : Nat} {records : List String}
    (enough : (notFound plans records).length < fuel) :
    Spreads plans records (spreadAll plans fuel records) := by
  induction fuel generalizing records with
  | zero => exact absurd enough (Nat.not_lt_zero _)
  | succ fuel ih =>
    unfold spreadAll
    by_cases idle : (spread plans records).length = records.length
    · simp only [idle, if_true]
      exact Spreads.last idle
    · simp only [idle, if_false]
      have fewer := notFound_spread_lt idle
      exact Spreads.more idle (ih (by omega))

/-- From any records the passes come to an end. -/
theorem spreadAll_ends (plans : List Plan) (records : List String) :
    Spreads plans records (spreadAll plans (plans.length + 1) records) :=
  spreadAll_spreads (Nat.lt_succ_of_le (List.length_filter_le _ _))

namespace Spreads

variable {plans : List Plan} {records all : List String}

theorem subset (h : Spreads plans records all) : records ⊆ all := by
  induction h with
  | last _ => exact subset_spread _ _
  | more _ _ ih => exact fun name hname => ih (subset_spread _ _ hname)

theorem sound (h : Spreads plans records all) (Q : String → Prop)
    (step : ∀ record target, HandsOver plans record target → Q target → Q record)
    (found : ∀ name ∈ records, Q name) : ∀ name ∈ all, Q name := by
  induction h with
  | last _ => exact spread_sound step found
  | more _ _ ih => exact ih (spread_sound step found)

theorem closed (h : Spreads plans records all) {record target : String}
    (hands : HandsOver plans record target) (htarget : target ∈ all) : record ∈ all := by
  induction h with
  | last idle =>
    rw [spread_idle idle] at htarget ⊢
    exact spread_closed idle hands htarget
  | more _ _ ih => exact ih htarget

/-- The passes find what leads to one of the records they start from. -/
theorem mem_iff (h : Spreads plans records all) {name : String} :
    name ∈ all ↔ ∃ target ∈ records, Relation.ReflTransGen (HandsOver plans) name target := by
  constructor
  · refine h.sound (fun name => ∃ target ∈ records,
      Relation.ReflTransGen (HandsOver plans) name target) ?_ (fun record hrecord => ?_) name
    · intro record target hands ⟨start, hstart, leads⟩
      exact ⟨start, hstart, leads.head hands⟩
    · exact ⟨record, hrecord, Relation.ReflTransGen.refl⟩
  · rintro ⟨target, htarget, leads⟩
    induction leads using Relation.ReflTransGen.head_induction_on with
    | refl => exact h.subset htarget
    | head hands _ ih => exact h.closed hands ih

end Spreads

/-- The plans that cannot be relied on are those of records that lead to a planned record with a
diagnostic. -/
theorem mem_unsettled {plans : List Plan} {ds : List Diagnostic} {name : String} :
    name ∈ unsettled plans ds ↔
      ∃ d ∈ ds, d.record ∈ names plans ∧
        Relation.ReflTransGen (HandsOver plans) name d.record := by
  unfold unsettled
  rw [(spreadAll_ends plans (reported plans ds)).mem_iff]
  unfold reported Diagnostic.hasRecord
  constructor
  · rintro ⟨target, htarget, leads⟩
    obtain ⟨planned, found⟩ := List.mem_filter.1 htarget
    obtain ⟨d, hd, same⟩ := List.any_eq_true.1 found
    obtain rfl : d.record = target := beq_iff_eq.1 same
    exact ⟨d, hd, planned, leads⟩
  · rintro ⟨d, hd, planned, leads⟩
    exact ⟨d.record, List.mem_filter.2 ⟨planned, List.any_eq_true.2 ⟨d, hd, beq_self_eq_true _⟩⟩,
      leads⟩

/-- Without diagnostics every plan can be relied on. -/
theorem unsettled_nil (plans : List Plan) : unsettled plans [] = [] := by
  refine List.eq_nil_iff_forall_not_mem.2 fun name hname => ?_
  obtain ⟨d, hd, -⟩ := mem_unsettled.1 hname
  cases hd

end Plan

namespace CompiledUnit

/-- What leads somewhere leads to a planned record only. -/
theorem leads_planned {file : SourceFile} {record target : String}
    (planned : record ∈ Plan.names (Plan.ofFile file).1)
    (leads : Relation.ReflTransGen (Plan.HandsOver (Plan.ofFile file).1) record target) :
    target ∈ Plan.names (Plan.ofFile file).1 := by
  induction leads with
  | refl => exact planned
  | tail _ hands _ =>
    obtain ⟨plan, hplan, -, check, hcheck, delegate⟩ := hands
    exact (Plan.ofFile_delegate hplan hcheck delegate).2

/-- An artifact is authoritative if and only if there is no diagnostic of a record that its record
leads to by handing over, in no or more steps.  The passes that find this out come to an end from any
records and whatever hands over to what. -/
theorem compile_authoritative {options : Emission.Options} {sourceName source : String}
    {unit : CompiledUnit} (compiled : compile options sourceName source = .ok unit) :
    (∀ artifact ∈ unit.artifacts, artifact.authoritative = true ↔
      ∀ record, Relation.ReflTransGen (Plan.HandsOver unit.plans) artifact.record record →
        ∀ d ∈ unit.diagnostics, d.record ≠ record) ∧
    ∀ (plans : List Plan) (ds : List Diagnostic),
      Plan.Spreads plans (Plan.reported plans ds) (Plan.unsettled plans ds) := by
  refine ⟨fun artifact hartifact => ?_, fun plans ds => Plan.spreadAll_ends plans _⟩
  unfold compile at compiled
  cases parsed : SourceFile.parse source.toList with
  | error e => rw [parsed] at compiled; cases compiled
  | ok file =>
    rw [parsed] at compiled
    cases compiled
    obtain ⟨plan, hplan, rfl⟩ := List.mem_map.1 hartifact
    have planned : plan.record ∈ Plan.names (Plan.ofFile file).1 := List.mem_map_of_mem hplan
    show (!(Plan.unsettled _ _).contains plan.record) = true ↔ _
    rw [Bool.not_eq_true', List.contains_eq_mem, decide_eq_false_iff_not, Plan.mem_unsettled]
    constructor
    · intro reliable record leads d hd same
      subst same
      exact reliable ⟨d, hd, leads_planned planned leads, leads⟩
    · rintro none ⟨d, hd, -, leads⟩
      exact none d.record leads d hd rfl

/-- A source with a chain of two steps to a record with a diagnostic, and a circle without any. -/
def chainAndCircle : String :=
  "package p
  type Account struct \x7b
    // +govalid:required
    Owner User
  \x7d
  type User struct \x7b
    // +govalid:required
    Home Address
  \x7d
  type Address struct \x7b
    // +govalid:required
    // +govalid:bogus
    City string
  \x7d
  type Left struct \x7b
    // +govalid:required
    Other Right
  \x7d
  type Right struct \x7b
    // +govalid:required
    Other Left
  \x7d
  "

set_option maxRecDepth 4000 in
theorem compile_authoritative_chainAndCircle :
    ∃ unit, compile .default "a.go" chainAndCircle = .ok unit ∧
      unit.artifacts.map (fun artifact => (artifact.record, artifact.authoritative)) =
        [("Account", false), ("User", false), ("Address", false), ("Left", true),
          ("Right", true)] ∧
      (∀ artifact ∈ unit.artifacts, artifact.authoritative = true ↔
        ∀ record, Relation.ReflTransGen (Plan.HandsOver unit.plans) artifact.record record →
          ∀ d ∈ unit.diagnostics, d.record ≠ record) ∧
      ∀ (plans : List Plan) (ds : List Diagnostic),
        Plan.Spreads plans (Plan.reported plans ds) (Plan.unsettled plans ds) := by
  obtain ⟨file, parsed, flags⟩ := exists_parse (rfl : chainAndCircle = _)
    (p := fun file =>
      (ofFile .default "a.go" file).artifacts.map
        (fun artifact => (artifact.record, artifact.authoritative)) ==
        [("Account", false), ("User", false), ("Address", false), ("Left", true),
          ("Right", true)])
    (by decide +kernel)
  have compiled : compile .default "a.go" chainAndCircle = .ok (ofFile .default "a.go" file) := by
    unfold compile
    rw [parsed]
    rfl
  exact ⟨_, compiled, beq_iff_eq.1 flags, compile_authoritative compiled⟩

end CompiledUnit

end FieldRules
