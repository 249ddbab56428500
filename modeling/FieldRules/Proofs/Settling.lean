/-
Settling finds the greatest set of records that can keep their plans.

Whether a `required` check on a named record can be made depends on which other
records keep a plan, and those depend on further checks, possibly in a circle.  A
set of records is consistent when each of them still has a check while only the
records of the set count as planned.  Rounds start from all records, each round
leaves every consistent set inside, and the last round is consistent itself, so
what is left is the greatest consistent set.

The proofs go over `Settles`, the rounds without a bound on their number.  A
round that drops something leaves fewer checks, so the bound of `settle` is
never used up.
-/
import FieldRules.Plan.Settle
import Mathlib.Data.List.Nodup
import Mathlib.Data.List.Perm.Basic

namespace FieldRules
namespace Plan

open Text

/-! ### What is to be found -/

/-- Whether a check cannot be made while only the records in `kept` have plans: it requires a named
record that is not among them and whose zero value cannot be compared with. -/
def isLost (kept : List String) (check : Check) : Bool :=
  match check.rule, check.kind with
  | .required, .record (some name) false => !kept.contains name
  | _, _ => false

/-- The record that a check hands over to: the named record that it requires, if it is kept. -/
def delegateAmong (kept : List String) (check : Check) : Option String :=
  match check.rule, check.kind with
  | .required, .record (some name) _ => if kept.contains name then some name else none
  | _, _ => none

def delegated (kept : List String) (check : Check) : Check :=
  { check with delegate := delegateAmong kept check }

def restrict (kept : List String) (plan : Plan) : Plan :=
  { plan with checks := (plan.checks.filter fun check => !isLost kept check).map (delegated kept) }

/-- Each record of the set keeps a check while only the records of the set are kept. -/
def Consistent (plans : List Plan) (kept : List String) : Prop :=
  kept ⊆ names plans ∧
    ∀ plan ∈ plans, plan.record ∈ kept → ∃ check ∈ plan.checks, isLost kept check = false

/-- A consistent set of records that every other consistent set is part of. -/
def GreatestConsistent (plans : List Plan) (kept : List String) : Prop :=
  Consistent plans kept ∧ ∀ other, Consistent plans other → other ⊆ kept

/-- The diagnostics for all checks that cannot be made while only some records are kept. -/
def lossesFrom (kept : List String) (plans : List Plan) : List Diagnostic :=
  plans.flatMap fun plan => (plan.checks.filter (isLost kept)).map (dropped plan.record)

/-- Rounds up to the first that drops nothing. -/
inductive Settles : List Plan → List Plan → List Diagnostic → Prop where
  | last {plans : List Plan} : (settleRound plans).2 = [] →
      Settles plans (settleRound plans).1 []
  | more {plans left : List Plan} {ds : List Diagnostic} : (settleRound plans).2 ≠ [] →
      Settles (settleRound plans).1 left ds → Settles plans left ((settleRound plans).2 ++ ds)

/-! ### One check -/

theorem settleCheck_isNone (kept : List String) (check : Check) :
    (settleCheck kept check).isNone = isLost kept check := by
  obtain ⟨path, guards, rule, argument, kind, goType, position, delegate⟩ := check
  cases rule <;> cases kind <;> try rfl
  next name comparable =>
    cases name with
    | none => rfl
    | some name =>
      cases comparable <;> by_cases h : name ∈ kept <;>
        simp [settleCheck, target?, hasZero, isLost, h]

/-- Of a check that hands over to nothing yet, settling leaves what `delegated` says. -/
theorem settleCheck_of_fresh {check : Check} (fresh : check.delegate = none) (kept : List String) :
    settleCheck kept check =
      if isLost kept check then none else some (delegated kept check) := by
  obtain ⟨path, guards, rule, argument, kind, goType, position, delegate⟩ := check
  subst fresh
  cases rule <;> cases kind <;> try rfl
  next name comparable =>
    cases name with
    | none => rfl
    | some name =>
      cases comparable <;> by_cases h : name ∈ kept <;>
        simp [settleCheck, target?, hasZero, isLost, delegated, delegateAmong, h]

/-- Only the delegate of a check changes, and only where it requires a named record. -/
theorem settleCheck_some {kept : List String} {check settled : Check}
    (h : settleCheck kept check = some settled) :
    settled = { check with delegate := settled.delegate } ∧
      (target? check = none → settled = check) := by
  unfold settleCheck at h
  split at h
  · next hnone =>
    cases h
    exact ⟨rfl, fun _ => rfl⟩
  · next name hname =>
    split at h
    · cases h
      exact ⟨rfl, fun hnone => by rw [hname] at hnone; cases hnone⟩
    · split at h
      · cases h
        exact ⟨rfl, fun hnone => by rw [hname] at hnone; cases hnone⟩
      · cases h

/-- The delegate that a check had before does not count. -/
theorem settleCheck_update {check : Check} {name : String} (h : target? check = some name)
    (kept : List String) (delegate : Option String) :
    settleCheck kept { check with delegate := delegate } = settleCheck kept check := by
  have ht : target? { check with delegate := delegate } = some name := h
  unfold settleCheck
  rw [ht, h]
  rfl

/-- With fewer records kept the outcome of the earlier settling does not count, and what was
dropped then is dropped now. -/
theorem settleCheck_settleCheck {kept before : List String} (sub : kept ⊆ before) (check : Check) :
    (settleCheck before check).bind (settleCheck kept) = settleCheck kept check := by
  cases hb : settleCheck before check with
  | some settled =>
    have hs := settleCheck_some hb
    cases ht : target? check with
    | none => rw [hs.2 ht]; rfl
    | some name =>
      rw [hs.1]
      exact settleCheck_update ht kept settled.delegate
  | none =>
    have lost : isLost before check = true := by
      rw [← settleCheck_isNone, hb]; rfl
    have stays : isLost kept check = true := by
      unfold isLost at lost ⊢
      split at lost
      · next name _ _ =>
        simp only [Bool.not_eq_true', List.contains_eq_mem, decide_eq_false_iff_not] at lost ⊢
        exact fun hmem => lost (sub hmem)
      · cases lost
    rw [← settleCheck_isNone, Option.isNone_iff_eq_none] at stays
    exact stays.symm

/-! ### One round -/

/-- The plans that still have a check while only some records are kept. -/
def trim (kept : List String) (plans : List Plan) : List Plan :=
  (plans.map (settleChecks kept)).filter fun plan => !plan.checks.isEmpty

theorem settleRound_fst (plans : List Plan) : (settleRound plans).1 = trim (names plans) plans :=
  rfl

theorem droppedFrom_eq (kept : List String) (plan : Plan) :
    droppedFrom kept plan = (plan.checks.filter (isLost kept)).map (dropped plan.record) := by
  unfold droppedFrom
  congr 1
  exact List.filter_congr fun check _ => settleCheck_isNone kept check

theorem settleRound_snd (plans : List Plan) :
    (settleRound plans).2 = lossesFrom (names plans) plans := by
  unfold settleRound lossesFrom
  exact congrArg (plans.flatMap ·) (funext fun plan => droppedFrom_eq (names plans) plan)

theorem trim_cons (kept : List String) (plan : Plan) (plans : List Plan) :
    trim kept (plan :: plans) =
      (if (settleChecks kept plan).checks = [] then [] else [settleChecks kept plan]) ++
        trim kept plans := by
  unfold trim
  rw [List.map_cons, List.filter_cons]
  by_cases h : (settleChecks kept plan).checks = [] <;> simp [h]

theorem settleChecks_settleChecks {kept before : List String} (sub : kept ⊆ before) (plan : Plan) :
    settleChecks kept (settleChecks before plan) = settleChecks kept plan := by
  unfold settleChecks
  simp only [List.filterMap_filterMap]
  congr 2
  funext check
  exact settleCheck_settleCheck sub check

/-- A plan that is empty with more records kept is empty with fewer. -/
theorem settleChecks_eq_nil {kept before : List String} (sub : kept ⊆ before) {plan : Plan}
    (h : (settleChecks before plan).checks = []) : (settleChecks kept plan).checks = [] := by
  have none : plan.checks.filterMap (settleCheck before) = [] := h
  rw [← settleChecks_settleChecks sub]
  unfold settleChecks
  rw [none]
  rfl

theorem trim_trim {kept before : List String} (sub : kept ⊆ before) (plans : List Plan) :
    trim kept (trim before plans) = trim kept plans := by
  induction plans with
  | nil => rfl
  | cons plan plans ih =>
    rw [trim_cons before, trim_cons kept]
    by_cases h : (settleChecks before plan).checks = []
    · rw [if_pos h, if_pos (settleChecks_eq_nil sub h)]
      exact ih
    · rw [if_neg h, List.singleton_append, trim_cons kept, settleChecks_settleChecks sub, ih]

theorem names_trim_sublist (kept : List String) (plans : List Plan) :
    (names (trim kept plans)).Sublist (names plans) := by
  have h : names plans = names (plans.map (settleChecks kept)) := by
    unfold names
    rw [List.map_map]
    rfl
  rw [h]
  exact List.filter_sublist.map _

theorem mem_trim {kept : List String} {plans : List Plan} {left : Plan} :
    left ∈ trim kept plans ↔
      ∃ plan ∈ plans, settleChecks kept plan = left ∧ left.checks ≠ [] := by
  unfold trim
  rw [List.mem_filter, List.mem_map]
  constructor
  · rintro ⟨⟨plan, hplan, rfl⟩, hne⟩
    exact ⟨plan, hplan, rfl, by simpa using hne⟩
  · rintro ⟨plan, hplan, rfl, hne⟩
    exact ⟨⟨plan, hplan, rfl⟩, by simpa using hne⟩

theorem settleChecks_ne_nil_iff (kept : List String) (plan : Plan) :
    (settleChecks kept plan).checks ≠ [] ↔ ∃ check ∈ plan.checks, isLost kept check = false := by
  rw [← List.length_pos_iff, List.length_pos_iff_exists_mem]
  unfold settleChecks
  simp only [List.mem_filterMap]
  constructor
  · rintro ⟨settled, check, hcheck, hs⟩
    refine ⟨check, hcheck, ?_⟩
    rw [← settleCheck_isNone, hs]
    rfl
  · rintro ⟨check, hcheck, hkept⟩
    rw [← settleCheck_isNone, ← Bool.not_eq_true, Option.isNone_iff_eq_none] at hkept
    obtain ⟨settled, hs⟩ := Option.ne_none_iff_exists'.1 hkept
    exact ⟨settled, check, hcheck, hs⟩

/-! ### The losses of two rounds -/

theorem isLost_mono {kept before : List String} (sub : kept ⊆ before) {check : Check}
    (h : isLost before check = true) : isLost kept check = true := by
  rw [← settleCheck_isNone, Option.isNone_iff_eq_none] at h ⊢
  rw [← settleCheck_settleCheck sub, h]
  rfl

theorem isLost_settled {before : List String} {check settled : Check}
    (h : settleCheck before check = some settled) (kept : List String) :
    isLost kept settled = isLost kept check := by
  rw [(settleCheck_some h).1]
  rfl

/-- The diagnostic for a dropped check does not depend on where it handed over to. -/
theorem dropped_settled {before : List String} {check settled : Check}
    (h : settleCheck before check = some settled) (record : String) :
    dropped record settled = dropped record check := by
  rw [(settleCheck_some h).1]
  rfl

/-- The checks lost with fewer records kept are those lost with more and those lost of what was
left. -/
theorem losses_split {kept before : List String} (sub : kept ⊆ before) (record : String)
    (checks : List Check) :
    ((checks.filter (isLost before)).map (dropped record) ++
      ((checks.filterMap (settleCheck before)).filter (isLost kept)).map (dropped record)).Perm
      ((checks.filter (isLost kept)).map (dropped record)) := by
  induction checks with
  | nil => exact List.Perm.refl _
  | cons check checks ih =>
    cases hs : settleCheck before check with
    | none =>
      have hb : isLost before check = true := by rw [← settleCheck_isNone, hs]; rfl
      rw [List.filter_cons_of_pos hb, List.filter_cons_of_pos (isLost_mono sub hb),
        List.filterMap_cons_none hs]
      exact ih.cons _
    | some settled =>
      have hb : isLost before check = false := by rw [← settleCheck_isNone, hs]; rfl
      rw [List.filter_cons_of_neg (by simp [hb]), List.filterMap_cons_some hs]
      by_cases hk : isLost kept check = true
      · rw [List.filter_cons_of_pos hk,
          List.filter_cons_of_pos ((isLost_settled hs kept).trans hk), List.map_cons, List.map_cons,
          dropped_settled hs]
        exact List.perm_middle.trans (ih.cons _)
      · rw [List.filter_cons_of_neg hk,
          List.filter_cons_of_neg (by rw [isLost_settled hs kept]; exact hk)]
        exact ih

theorem lossesFrom_trim {kept before : List String} (sub : kept ⊆ before) (plans : List Plan) :
    (lossesFrom before plans ++ lossesFrom kept (trim before plans)).Perm
      (lossesFrom kept plans) := by
  induction plans with
  | nil => exact List.Perm.refl _
  | cons plan plans ih =>
    have here := losses_split sub plan.record plan.checks
    -- An emptied plan has no checks left to lose, so it may as well stay in the list.
    have head : lossesFrom kept
        (if (settleChecks before plan).checks = [] then [] else [settleChecks before plan]) =
        ((plan.checks.filterMap (settleCheck before)).filter (isLost kept)).map
          (dropped plan.record) := by
      split
      · next h =>
        have h' : plan.checks.filterMap (settleCheck before) = [] := h
        rw [h']
        rfl
      · exact List.append_nil _
    rw [trim_cons]
    unfold lossesFrom at head ih ⊢
    rw [List.flatMap_cons, List.flatMap_cons, List.flatMap_append, head]
    refine List.Perm.trans ?_ (here.append ih)
    rw [List.append_assoc, List.append_assoc]
    exact (List.perm_append_comm_assoc _ _ _).append_left _

/-! ### All rounds -/

theorem checkCount_trim_le (kept : List String) (plans : List Plan) :
    checkCount (trim kept plans) + (lossesFrom kept plans).length ≤ checkCount plans := by
  induction plans with
  | nil => exact Nat.le_refl _
  | cons plan plans ih =>
    have split : (plan.checks.filterMap (settleCheck kept)).length +
        (plan.checks.filter (isLost kept)).length = plan.checks.length := by
      rw [List.length_filterMap_eq_countP, ← List.countP_eq_length_filter,
        List.length_eq_countP_add_countP (fun c => (settleCheck kept c).isSome)]
      congr 1
      refine List.countP_congr fun check _ => ?_
      rw [← settleCheck_isNone]
      cases settleCheck kept check <;> simp
    have losses : (lossesFrom kept (plan :: plans)).length =
        (plan.checks.filter (isLost kept)).length + (lossesFrom kept plans).length := by
      unfold lossesFrom
      rw [List.flatMap_cons, List.length_append, List.length_map]
    rw [trim_cons, losses]
    by_cases h : (settleChecks kept plan).checks = []
    · rw [if_pos h, List.nil_append]
      simp only [checkCount]
      omega
    · rw [if_neg h, List.singleton_append]
      simp only [checkCount]
      have same : (settleChecks kept plan).checks.length =
        (plan.checks.filterMap (settleCheck kept)).length := rfl
      omega

theorem settleRounds_settles {fuel : Nat} {plans : List Plan} (h : checkCount plans < fuel) :
    Settles plans (settleRounds fuel plans).1 (settleRounds fuel plans).2 := by
  induction fuel generalizing plans with
  | zero => exact absurd h (Nat.not_lt_zero _)
  | succ fuel ih =>
    unfold settleRounds
    by_cases hds : (settleRound plans).2 = []
    · simp only [hds, List.isEmpty_nil, if_true]
      exact Settles.last hds
    · have fewer : checkCount (settleRound plans).1 < fuel := by
        have hle := checkCount_trim_le (names plans) plans
        rw [← settleRound_snd, ← settleRound_fst] at hle
        have hpos := List.length_pos_iff.2 hds
        omega
      simp only [List.isEmpty_iff, hds, if_false]
      exact Settles.more hds (ih fewer)

/-- The rounds come to an end, and `settle` is what they end with. -/
theorem settle_settles (plans : List Plan) : Settles plans (settle plans).1 (settle plans).2 :=
  settleRounds_settles (Nat.lt_succ_self _)

namespace Settles

variable {plans left : List Plan} {ds : List Diagnostic}

theorem names_sublist (h : Settles plans left ds) : (names left).Sublist (names plans) := by
  induction h with
  | last _ => exact names_trim_sublist _ _
  | more _ _ ih => exact ih.trans (names_trim_sublist _ _)

theorem names_subset (h : Settles plans left ds) : names left ⊆ names plans :=
  h.names_sublist.subset

/-- The last round leaves all plans. -/
theorem names_last (nonempty : ∀ plan ∈ plans, plan.checks ≠ [])
    (hds : (settleRound plans).2 = []) :
    names (settleRound plans).1 = names plans := by
  rw [settleRound_snd] at hds
  have all : (plans.map (settleChecks (names plans))).filter (fun plan => !plan.checks.isEmpty) =
      plans.map (settleChecks (names plans)) := by
    rw [List.filter_eq_self]
    intro settled hsettled
    obtain ⟨plan, hplan, rfl⟩ := List.mem_map.1 hsettled
    obtain ⟨check, hcheck⟩ := List.exists_mem_of_ne_nil _ (nonempty plan hplan)
    have kept : isLost (names plans) check = false := by
      have hnone := List.flatMap_eq_nil_iff.1 hds plan hplan
      rw [List.map_eq_nil_iff, List.filter_eq_nil_iff] at hnone
      simpa using hnone check hcheck
    have hne := (settleChecks_ne_nil_iff (names plans) plan).2 ⟨check, hcheck, kept⟩
    simpa using hne
  rw [settleRound_fst, trim, all, names, List.map_map]
  rfl

theorem nonempty_round : ∀ plan ∈ (settleRound plans).1, plan.checks ≠ [] := by
  intro plan hplan
  obtain ⟨_, _, _, hne⟩ := mem_trim.1 hplan
  exact hne

/-- What is left are the given plans without what cannot be made with the records that are left. -/
theorem eq_trim (nonempty : ∀ plan ∈ plans, plan.checks ≠ []) (h : Settles plans left ds) :
    left = trim (names left) plans := by
  induction h with
  | last hds => rw [names_last nonempty hds, settleRound_fst]
  | more _ hrest ih =>
    rw [← trim_trim (fun name hname => (names_trim_sublist _ _).subset (hrest.names_subset hname))]
    exact ih nonempty_round

/-- Every consistent set of records stays. -/
theorem consistent_subset (h : Settles plans left ds) {kept : List String}
    (consistent : Consistent plans kept) : kept ⊆ names left := by
  -- A round takes no record of the set away, and the set is consistent in what it leaves.
  have stays : ∀ {plans : List Plan}, Consistent plans kept →
      Consistent (settleRound plans).1 kept := by
    intro plans consistent
    have keeps : ∀ plan ∈ plans, plan.record ∈ kept →
        ∃ check ∈ (settleChecks (names plans) plan).checks, isLost kept check = false := by
      intro plan hplan hrecord
      obtain ⟨check, hcheck, hkept⟩ := consistent.2 plan hplan hrecord
      cases hs : settleCheck (names plans) check with
      | none =>
        rw [← Option.isNone_iff_eq_none, settleCheck_isNone] at hs
        rw [isLost_mono consistent.1 hs] at hkept
        cases hkept
      | some settled =>
        exact ⟨settled, List.mem_filterMap.2 ⟨check, hcheck, hs⟩,
          (isLost_settled hs kept).trans hkept⟩
    constructor
    · intro name hname
      obtain ⟨plan, hplan, rfl⟩ := List.mem_map.1 (consistent.1 hname)
      obtain ⟨check, hcheck, -⟩ := keeps plan hplan hname
      refine List.mem_map.2 ⟨settleChecks (names plans) plan, ?_, rfl⟩
      exact mem_trim.2 ⟨plan, hplan, rfl, List.ne_nil_of_mem hcheck⟩
    · intro left hleft hrecord
      obtain ⟨plan, hplan, rfl, -⟩ := mem_trim.1 hleft
      exact keeps plan hplan hrecord
  induction h with
  | last _ => exact (stays consistent).1
  | more _ _ ih => exact ih (stays consistent)

/-- What is said of dropped checks, in all rounds together. -/
theorem losses_perm (nonempty : ∀ plan ∈ plans, plan.checks ≠ []) (h : Settles plans left ds) :
    ds.Perm (lossesFrom (names left) plans) := by
  induction h with
  | last hds => rw [names_last nonempty hds, ← settleRound_snd, hds]
  | more _ hrest ih =>
    rw [settleRound_snd]
    refine ((ih nonempty_round).append_left _).trans (lossesFrom_trim ?_ _)
    exact fun name hname => (names_trim_sublist _ _).subset (hrest.names_subset hname)

end Settles

/-! ### The greatest consistent set -/

theorem settleChecks_of_fresh {plan : Plan} (fresh : ∀ check ∈ plan.checks, check.delegate = none)
    (kept : List String) : settleChecks kept plan = restrict kept plan := by
  have step : ∀ checks : List Check, (∀ check ∈ checks, check.delegate = none) →
      checks.filterMap (settleCheck kept) =
        (checks.filter fun check => !isLost kept check).map (delegated kept) := by
    intro checks
    induction checks with
    | nil => exact fun _ => rfl
    | cons check checks ih =>
      intro fresh
      have here := settleCheck_of_fresh (fresh check List.mem_cons_self) kept
      have rest := ih fun other hother => fresh other (List.mem_cons_of_mem check hother)
      by_cases lost : isLost kept check = true
      · rw [if_pos lost] at here
        rw [List.filterMap_cons_none here, rest, List.filter_cons_of_neg (by simp [lost])]
      · rw [if_neg lost] at here
        rw [List.filterMap_cons_some here, rest, List.filter_cons_of_pos (by simpa using lost),
          List.map_cons]
  unfold settleChecks restrict
  rw [step plan.checks fresh]

/-- Where every record has one plan, a plan is left exactly when its record is. -/
theorem record_mem_trim {plans : List Plan} (keyed : (names plans).Nodup) {plan : Plan}
    (hplan : plan ∈ plans) (kept : List String) :
    plan.record ∈ names (trim kept plans) ↔ (settleChecks kept plan).checks ≠ [] := by
  constructor
  · intro hrecord
    obtain ⟨left, hleft, hsame⟩ := List.mem_map.1 hrecord
    obtain ⟨other, hother, rfl, hne⟩ := mem_trim.1 hleft
    have : other = plan := List.inj_on_of_nodup_map keyed hother hplan hsame
    rwa [this] at hne
  · intro hne
    exact List.mem_map.2 ⟨settleChecks kept plan, mem_trim.2 ⟨plan, hplan, rfl, hne⟩, rfl⟩

theorem Settles.consistent {plans left : List Plan} {ds : List Diagnostic}
    (keyed : (names plans).Nodup) (nonempty : ∀ plan ∈ plans, plan.checks ≠ [])
    (h : Settles plans left ds) : Consistent plans (names left) := by
  refine ⟨h.names_subset, fun plan hplan hrecord => ?_⟩
  rw [h.eq_trim nonempty] at hrecord
  exact (settleChecks_ne_nil_iff _ plan).1 ((record_mem_trim keyed hplan _).1 hrecord)

theorem Settles.eq_restrict {plans left : List Plan} {ds : List Diagnostic}
    (keyed : (names plans).Nodup) (nonempty : ∀ plan ∈ plans, plan.checks ≠ [])
    (fresh : ∀ plan ∈ plans, ∀ check ∈ plan.checks, check.delegate = none)
    (h : Settles plans left ds) :
    left = (plans.filter fun plan => (names left).contains plan.record).map
      (restrict (names left)) := by
  have leftIff : ∀ plan ∈ plans, (!(settleChecks (names left) plan).checks.isEmpty) =
      (names left).contains plan.record := by
    intro plan hplan
    have hiff := record_mem_trim keyed hplan (names left)
    rw [← h.eq_trim nonempty] at hiff
    rw [Bool.eq_iff_iff]
    simpa using hiff.symm
  calc left = trim (names left) plans := h.eq_trim nonempty
    _ = (plans.filter fun plan => (names left).contains plan.record).map
          (settleChecks (names left)) := by
        rw [trim, List.filter_map]
        exact congrArg _ (List.filter_congr leftIff)
    _ = _ := List.map_congr_left fun plan hplan =>
        settleChecks_of_fresh (fresh plan (List.mem_filter.1 hplan).1) _

/-- Settling ends.  What it leaves are the plans of the greatest consistent set of records, each
with the checks that can be made then, in their order; a check hands over exactly where the record
it requires is in the set; and each dropped check has one diagnostic. -/
theorem settle_greatest {plans : List Plan} (keyed : (names plans).Nodup)
    (nonempty : ∀ plan ∈ plans, plan.checks ≠ [])
    (fresh : ∀ plan ∈ plans, ∀ check ∈ plan.checks, check.delegate = none) :
    Settles plans (settle plans).1 (settle plans).2 ∧
      ∃ kept : List String, GreatestConsistent plans kept ∧
        (settle plans).1 =
          (plans.filter fun plan => kept.contains plan.record).map (restrict kept) ∧
        (settle plans).2.Perm (lossesFrom kept plans) ∧
        ∀ d ∈ (settle plans).2, d.kind = .incompatibleRule := by
  have run := settle_settles plans
  have losses := run.losses_perm nonempty
  refine ⟨run, names (settle plans).1, ⟨run.consistent keyed nonempty, ?_⟩,
    run.eq_restrict keyed nonempty fresh, losses, ?_⟩
  · exact fun other consistent => run.consistent_subset consistent
  · intro d hd
    obtain ⟨plan, _, hlost⟩ := List.mem_flatMap.1 (losses.mem_iff.1 hd)
    obtain ⟨check, _, rfl⟩ := List.mem_map.1 hlost
    rfl

/-- Two records that require each other keep their plans.  A third requires one that has no plan; it
loses its only check and with it its own plan, so what requires the third is dropped a round
later. -/
theorem settle_greatest_circle :
    let required := fun target => (⟨⟨["F"]⟩, [], .required, none, .record (some target) false,
      target, Position.first, none⟩ : Check)
    let plans : List Plan := [⟨"A", Position.first, [required "B"]⟩,
      ⟨"B", Position.first, [required "A", required "C"]⟩, ⟨"C", Position.first, [required "D"]⟩]
    ((names plans).Nodup ∧ (∀ plan ∈ plans, plan.checks ≠ []) ∧
      ∀ plan ∈ plans, ∀ check ∈ plan.checks, check.delegate = none) ∧
    names (settle plans).1 = ["A", "B"] ∧ (settle plans).2.map (·.record) = ["C", "B"] ∧
    ∃ kept : List String, GreatestConsistent plans kept ∧
      (settle plans).1 =
        (plans.filter fun plan => kept.contains plan.record).map (restrict kept) := by
  intro required plans
  have keyed : (names plans).Nodup := by decide
  have nonempty : ∀ plan ∈ plans, plan.checks ≠ [] := by simp [plans]
  have fresh : ∀ plan ∈ plans, ∀ check ∈ plan.checks, check.delegate = none := by
    simp [plans, required]
  obtain ⟨-, kept, greatest, left, -⟩ := settle_greatest keyed nonempty fresh
  exact ⟨⟨keyed, nonempty, fresh⟩, by decide, by decide, kept, greatest, left⟩

end Plan
end FieldRules
