/-
Settling some of the plans.

A region is a set of records whose checks require no records outside it.  Other
plans make no difference inside a region: settling all plans and keeping those of
the region is settling the plans of the region alone (`Settles.within`).  The
rounds may go on for the sake of other plans when the region has come to rest, but
then they leave it as it is.
-/
import FieldRules.Proofs.Settling

namespace FieldRules
namespace Plan

variable (region : String → Prop) [DecidablePred region]

/-- The plans of the records of a region. -/
def within (plans : List Plan) : List Plan := plans.filter fun plan => region plan.record

/-- The diagnostics of the records of a region. -/
def concerning (ds : List Diagnostic) : List Diagnostic := ds.filter fun d => region d.record

/-- Whether what the plans of a region require belongs to it. -/
def IsRegion (region : String → Prop) (plans : List Plan) : Prop :=
  ∀ plan ∈ plans, region plan.record →
    ∀ check ∈ plan.checks, ∀ name, target? check = some name → region name

variable {region}

theorem names_within (plans : List Plan) :
    names (within region plans) = (names plans).filter fun name => region name := by
  unfold names within
  rw [List.filter_map]
  rfl

theorem within_cons (plan : Plan) (plans : List Plan) :
    within region (plan :: plans) =
      (if region plan.record then [plan] else []) ++ within region plans := by
  unfold within
  rw [List.filter_cons]
  by_cases h : region plan.record <;> simp [h]

theorem within_append (plans more : List Plan) :
    within region (plans ++ more) = within region plans ++ within region more :=
  List.filter_append ..

theorem concerning_append (ds es : List Diagnostic) :
    concerning region (ds ++ es) = concerning region ds ++ concerning region es :=
  List.filter_append ..

/-! ### One round -/

/-- Only whether the required record has a plan counts for a check. -/
theorem settleCheck_congr {few many : List String} {check : Check}
    (same : ∀ name, target? check = some name → (name ∈ few ↔ name ∈ many)) :
    settleCheck few check = settleCheck many check := by
  unfold settleCheck
  cases htarget : target? check with
  | none => rfl
  | some name =>
    have contains : few.contains name = many.contains name := by
      rw [Bool.eq_iff_iff, List.contains_iff_mem, List.contains_iff_mem]
      exact same name htarget
    simp only [contains]

theorem settleChecks_congr {few many : List String} {plan : Plan}
    (same : ∀ check ∈ plan.checks, settleCheck few check = settleCheck many check) :
    settleChecks few plan = settleChecks many plan := by
  unfold settleChecks
  rw [List.filterMap_congr same]

theorem droppedFrom_congr {few many : List String} {plan : Plan}
    (same : ∀ check ∈ plan.checks, settleCheck few check = settleCheck many check) :
    droppedFrom few plan = droppedFrom many plan := by
  unfold droppedFrom
  rw [List.filter_congr fun check hcheck => by rw [same check hcheck]]

/-- What is said of dropped checks concerns their own record. -/
theorem concerning_droppedFrom (planned : List String) (plan : Plan) :
    concerning region (droppedFrom planned plan) =
      if region plan.record then droppedFrom planned plan else [] := by
  unfold concerning droppedFrom
  rw [List.filter_map]
  by_cases h : region plan.record <;>
    simp [h, Function.comp_def, dropped, Rejection.diagnostic]

/-- Whether the checks of a region are settled alike for two sets of planned records. -/
def SettlesAlike (region : String → Prop) (few many : List String) (plans : List Plan) : Prop :=
  ∀ plan ∈ plans, region plan.record →
    ∀ check ∈ plan.checks, settleCheck few check = settleCheck many check

theorem trim_within {few many : List String} {plans : List Plan}
    (same : SettlesAlike region few many plans) :
    trim few (within region plans) = within region (trim many plans) := by
  induction plans with
  | nil => rfl
  | cons plan plans ih =>
    have rest := ih fun other hother => same other (List.mem_cons_of_mem _ hother)
    rw [within_cons, trim_cons, within_append, ← rest]
    by_cases inside : region plan.record
    · rw [if_pos inside, List.singleton_append, trim_cons,
        settleChecks_congr (same plan List.mem_cons_self inside)]
      have record : region (settleChecks many plan).record := inside
      split <;> simp [within, record]
    · rw [if_neg inside, List.nil_append]
      have record : ¬region (settleChecks many plan).record := inside
      split <;> simp [within, record]

theorem flatMap_droppedFrom_within {few many : List String} {plans : List Plan}
    (same : SettlesAlike region few many plans) :
    (within region plans).flatMap (droppedFrom few) =
      concerning region (plans.flatMap (droppedFrom many)) := by
  induction plans with
  | nil => rfl
  | cons plan plans ih =>
    have rest := ih fun other hother => same other (List.mem_cons_of_mem _ hother)
    rw [within_cons, List.flatMap_cons, concerning_append, concerning_droppedFrom,
      List.flatMap_append, rest]
    by_cases inside : region plan.record
    · rw [if_pos inside, if_pos inside, List.flatMap_singleton,
        droppedFrom_congr (same plan List.mem_cons_self inside)]
    · rw [if_neg inside, if_neg inside, List.flatMap_nil]

/-- A round does in a region what it would do without the other plans. -/
theorem settleRound_within {plans : List Plan} (closed : IsRegion region plans) :
    settleRound (within region plans) =
      (within region (settleRound plans).1, concerning region (settleRound plans).2) := by
  have same : SettlesAlike region (names (within region plans)) (names plans) plans := by
    intro plan hplan inside check hcheck
    refine settleCheck_congr fun name htarget => ?_
    rw [names_within, List.mem_filter]
    exact and_iff_left (by simpa using closed plan hplan inside check hcheck name htarget)
  exact Prod.ext (trim_within same) (flatMap_droppedFrom_within same)

omit [DecidablePred region] in
theorem IsRegion.round {plans : List Plan} (closed : IsRegion region plans) :
    IsRegion region (settleRound plans).1 := by
  intro left hleft inside check hcheck name htarget
  obtain ⟨plan, hplan, rfl, -⟩ := mem_trim.1 hleft
  obtain ⟨made, hmade, hsettled⟩ := List.mem_filterMap.1 hcheck
  rw [(settleCheck_some hsettled).1] at htarget
  exact closed plan hplan inside made hmade name htarget

/-- A round after one that drops nothing changes nothing. -/
theorem settleRound_again {plans : List Plan} (nonempty : ∀ plan ∈ plans, plan.checks ≠ [])
    (idle : (settleRound plans).2 = []) :
    settleRound (settleRound plans).1 = ((settleRound plans).1, []) := by
  have stays := Settles.names_last nonempty idle
  have losses := lossesFrom_trim (List.Subset.refl (names plans)) plans
  rw [← settleRound_fst, ← settleRound_snd, idle, List.nil_append] at losses
  refine Prod.ext ?_ ?_
  · rw [settleRound_fst, stays, settleRound_fst]
    exact trim_trim (List.Subset.refl _) plans
  · rw [settleRound_snd, stays]
    exact losses.eq_nil

/-! ### All rounds -/

theorem Settles.unique {plans left other : List Plan} {ds es : List Diagnostic}
    (h : Settles plans left ds) (h' : Settles plans other es) : left = other ∧ ds = es := by
  induction h generalizing other es with
  | last idle =>
    cases h' with
    | last _ => exact ⟨rfl, rfl⟩
    | more busy _ => exact absurd idle busy
  | more busy _ ih =>
    cases h' with
    | last idle => exact absurd idle busy
    | more _ rest =>
      obtain ⟨sameLeft, sameRest⟩ := ih rest
      exact ⟨sameLeft, congrArg _ sameRest⟩

theorem Settles.within {plans left : List Plan} {ds : List Diagnostic}
    (h : Settles plans left ds) (nonempty : ∀ plan ∈ plans, plan.checks ≠ [])
    (closed : IsRegion region plans) :
    Settles (within region plans) (within region left) (concerning region ds) := by
  induction h with
  | @last plans idle =>
    have alone := settleRound_within closed
    rw [idle] at alone
    have settles := Settles.last (congrArg Prod.snd alone)
    rwa [alone] at settles
  | @more plans left ds _ rest ih =>
    have alone := settleRound_within closed
    have later := ih nonempty_round closed.round
    rw [concerning_append]
    by_cases idle : concerning region (settleRound plans).2 = []
    · -- The region is at rest, and the rounds that follow leave it as it is.
      have noLosses : (settleRound (Plan.within region plans)).2 = [] := by rw [alone, idle]
      have again : settleRound (settleRound (Plan.within region plans)).1 = _ :=
        settleRound_again (fun plan hplan => nonempty plan (List.mem_filter.1 hplan).1) noLosses
      have rests := Settles.last (congrArg Prod.snd again)
      rw [again, alone] at rests
      obtain ⟨sameLeft, none⟩ := later.unique rests
      rw [sameLeft, none, idle]
      have settles := Settles.last noLosses
      rwa [alone] at settles
    · have busy : (settleRound (Plan.within region plans)).2 ≠ [] := by rw [alone]; exact idle
      have settles : Settles (settleRound (Plan.within region plans)).1
          (Plan.within region left) (concerning region ds) := by
        rw [alone]
        exact later
      have all := Settles.more busy settles
      rwa [alone] at all

/-- Settling all plans does in a region what settling its own plans does. -/
theorem settle_within {plans : List Plan} (nonempty : ∀ plan ∈ plans, plan.checks ≠ [])
    (closed : IsRegion region plans) :
    settle (within region plans) =
      (within region (settle plans).1, concerning region (settle plans).2) := by
  obtain ⟨left, ds⟩ := (settle_settles (within region plans)).unique
    ((settle_settles plans).within nonempty closed)
  exact Prod.ext left ds

end Plan
end FieldRules
