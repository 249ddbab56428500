/-
A validator that ends, ends within the depth that it is run to.

A check hands over the record that it finds at its path.  That is a smaller record
than the one it is found in, or the empty one, and from the empty record only empty
records are handed over.  There a validator ends or does not whatever came before,
so a chain of handing over that visits one twice never ends: as many steps as there
are validators are enough (`stable_length`).  Hence `none` is what `validate` has
for a run without end and for no other (`validate_of_run`).
-/
import FieldRules.Validator
import Mathlib.Data.List.Forall2

namespace FieldRules
namespace Validator

/-- Whether a run ends within a depth of handing over. -/
def Ends (lookup : String → Option Validator) : Nat → Validator → Record → Prop
  | 0, _, _ => False
  | depth + 1, validator, record => ∀ check ∈ validator.checks, ∀ value,
      resolve record check = some value → ∀ inner, check.delegate.bind lookup = some inner →
        Ends lookup depth inner (asRecord value)

variable {lookup : String → Option Validator}

/-! ### Runs that end -/

theorem runChecks_isSome {run : Check → Option (List Violation)} {checks : List Check} :
    (runChecks run checks).isSome = true ↔ ∀ check ∈ checks, (run check).isSome = true := by
  induction checks with
  | nil => simp [runChecks]
  | cons check checks ih =>
    rw [runChecks, List.forall_mem_cons, ← ih]
    cases run check <;> simp

/-- Where a record stands does not count for whether the run ends. -/
theorem run_isSome {depth : Nat} {validator : Validator} {record : Record} {above : FieldPath} :
    (run lookup depth validator record above).isSome = true ↔
      Ends lookup depth validator record := by
  induction depth generalizing validator record above with
  | zero => simp [run, Ends]
  | succ depth ih =>
    rw [run, Ends, runChecks_isSome]
    refine forall_congr' fun check => forall_congr' fun _ => ?_
    unfold runCheck
    cases resolve record check with
    | none => simp
    | some value =>
      cases hinner : check.delegate.bind lookup with
      | none => simp
      | some inner => simp [ih]

theorem runChecks_congr {run other : Check → Option (List Violation)} {checks : List Check}
    (same : ∀ check ∈ checks, run check = other check) :
    runChecks run checks = runChecks other checks := by
  induction checks with
  | nil => rfl
  | cons check checks ih =>
    rw [runChecks, runChecks, same check List.mem_cons_self,
      ih fun more hmore => same more (List.mem_cons_of_mem _ hmore)]

/-- Where checks one by one report what is related, so they do together. -/
theorem runChecks_related {relates : Violation → Violation → Prop}
    {run more : Check → Option (List Violation)} {checks : List Check}
    (step : ∀ check ∈ checks, ∀ found, run check = some found →
      ∃ lifted, more check = some lifted ∧ List.Forall₂ relates found lifted)
    {found : List Violation} (h : runChecks run checks = some found) :
    ∃ lifted, runChecks more checks = some lifted ∧ List.Forall₂ relates found lifted := by
  induction checks generalizing found with
  | nil =>
    cases h
    exact ⟨[], rfl, .nil⟩
  | cons check checks ih =>
    rw [runChecks] at h
    cases hcheck : run check with
    | none => rw [hcheck] at h; cases h
    | some here =>
      rw [hcheck] at h
      obtain ⟨rest, hrest, rfl⟩ := Option.map_eq_some_iff.1 h
      obtain ⟨first, hfirst, relatesFirst⟩ := step check List.mem_cons_self here hcheck
      obtain ⟨others, hothers, relatesOthers⟩ :=
        ih (fun other hother => step other (List.mem_cons_of_mem _ hother)) hrest
      refine ⟨first ++ others, ?_, List.rel_append relatesFirst relatesOthers⟩
      rw [runChecks, hfirst, hothers]
      rfl

theorem runChecks_mono {run more : Check → Option (List Violation)} {checks : List Check}
    (step : ∀ check ∈ checks, ∀ found, run check = some found → more check = some found)
    {found : List Violation} (h : runChecks run checks = some found) :
    runChecks more checks = some found := by
  obtain ⟨same, hsame, equal⟩ := runChecks_related
    (fun check hcheck here hhere => ⟨here, step check hcheck here hhere, List.forall₂_same.2
      fun _ _ => rfl⟩) h
  rw [List.forall₂_eq_eq_eq] at equal
  rw [equal]
  exact hsame

/-- What a run reports that ends, it reports with more depth as well. -/
theorem run_mono {few many : Nat} (le : few ≤ many) {validator : Validator} {record : Record}
    {above : FieldPath} {found : List Violation}
    (h : run lookup few validator record above = some found) :
    run lookup many validator record above = some found := by
  induction few generalizing many validator record above found with
  | zero => cases h
  | succ few ih =>
    obtain ⟨many, rfl⟩ : ∃ m, many = m + 1 := ⟨many - 1, by omega⟩
    rw [run] at h ⊢
    refine runChecks_mono (fun check _ here hcheck => ?_) h
    unfold runCheck at hcheck ⊢
    split at hcheck
    · exact hcheck
    · next value _ =>
      simp only at hcheck ⊢
      split at hcheck
      · exact ih (by omega) hcheck
      · exact hcheck

theorem Ends.mono {few many : Nat} (le : few ≤ many) {validator : Validator} {record : Record}
    (h : Ends lookup few validator record) : Ends lookup many validator record := by
  have some : (run lookup few validator record .root).isSome = true := run_isSome.2 h
  obtain ⟨found, hfound⟩ := Option.isSome_iff_exists.1 some
  exact run_isSome.1 (Option.isSome_iff_exists.2 ⟨found, run_mono le hfound⟩)

/-! ### Records that are handed over -/

theorem depth_of_get? {record : Record} {name : String} {value : Value}
    (h : record.get? name = some value) : value.depth < (Value.record record).depth := by
  unfold Record.get? at h
  rw [Value.depth]
  induction record with
  | nil => cases h
  | cons member record ih =>
    obtain ⟨other, first⟩ := member
    rw [Value.depthFields]
    rw [Json.getMember?] at h
    split at h
    · cases h
      show first.depth < max first.depth _ + 1
      omega
    · have below := ih h
      show value.depth < max first.depth _ + 1
      omega

/-- On the way down records get no deeper. -/
theorem descend_depth {guards : List FieldPath} {walked : FieldPath} {record parent : Record}
    {names : List String} (h : descend guards walked record names = some parent) :
    (Value.record parent).depth ≤ (Value.record record).depth := by
  have empty : ∀ record : Record, (Value.record []).depth ≤ (Value.record record).depth := by
    intro record
    rw [Value.depth, Value.depth, Value.depthFields]
    omega
  induction names generalizing walked record with
  | nil =>
    cases h
    exact Nat.le_refl _
  | cons name names ih =>
    rw [descend] at h
    split at h
    · next fields hget => exact Nat.le_trans (ih h) (Nat.le_of_lt (depth_of_get? hget))
    · split at h
      · cases h
      · exact Nat.le_trans (ih h) (empty record)
    · split at h
      · cases h
      · exact Nat.le_trans (ih h) (empty record)
    · exact Nat.le_trans (ih h) (empty record)

/-- What a check hands over is the empty record or one that is less deep. -/
theorem asRecord_resolve {record : Record} {check : Check} {value : Value}
    (h : resolve record check = some value) :
    asRecord value = [] ∨
      (Value.record (asRecord value)).depth < (Value.record record).depth := by
  unfold resolve at h
  split at h
  · cases h
  · next leaf _ =>
    obtain ⟨parent, hparent, rfl⟩ := Option.map_eq_some_iff.1 h
    cases hget : parent.get? leaf with
    | none =>
      left
      cases check.kind <;> rfl
    | some value =>
      cases value with
      | record fields => exact .inr (Nat.lt_of_lt_of_le (depth_of_get? hget) (descend_depth hparent))
      | null | bool _ | int _ | float _ | text _ => exact .inl rfl

theorem asRecord_resolve_nil {check : Check} {value : Value}
    (h : resolve [] check = some value) : asRecord value = [] := by
  rcases asRecord_resolve h with h | h
  · exact h
  · rw [Value.depth, Value.depth, Value.depthFields] at h
    omega

/-! ### The empty record -/

variable {others : List Validator}

theorem find?_mem {name : String} {validator : Validator}
    (h : find? others name = some validator) : validator ∈ others :=
  List.mem_of_find?_eq_some h

theorem find?_record {name : String} {validator : Validator}
    (h : find? others name = some validator) : validator.record = name := by
  unfold find? at h
  have same := List.find?_some h
  exact beq_iff_eq.1 same

/-- Whether no validator needs just one step more on the empty record. -/
def StableAt (others : List Validator) (depth : Nat) : Prop :=
  ∀ validator ∈ others, Ends (find? others) (depth + 1) validator [] →
    Ends (find? others) depth validator []

theorem StableAt.succ {depth : Nat} (h : StableAt others depth) : StableAt others (depth + 1) := by
  intro validator _ ends check hcheck value hvalue inner hinner
  have below := ends check hcheck value hvalue inner hinner
  rw [asRecord_resolve_nil hvalue] at below ⊢
  obtain ⟨name, -, hfind⟩ := Option.bind_eq_some_iff.1 hinner
  exact h inner (find?_mem hfind) below

theorem StableAt.le {few many : Nat} (h : StableAt others few) (le : few ≤ many) :
    StableAt others many := by
  induction le with
  | refl => exact h
  | step _ ih => exact ih.succ

theorem StableAt.ends {few many : Nat} (h : StableAt others few) {validator : Validator}
    (hmem : validator ∈ others) (ends : Ends (find? others) many validator []) :
    Ends (find? others) few validator [] := by
  induction many with
  | zero => exact ends.elim
  | succ many ih =>
    rcases Nat.lt_or_ge many few with le | le
    · exact ends.mono le
    · exact ih (h.le le validator hmem ends)

/-- The validators that end on the empty record within a depth. -/
def ending (others : List Validator) (depth : Nat) : List Validator :=
  others.filter fun validator =>
    (run (find? others) depth validator [] FieldPath.root).isSome

theorem mem_ending {depth : Nat} {validator : Validator} :
    validator ∈ ending others depth ↔
      validator ∈ others ∧ Ends (find? others) depth validator [] :=
  List.mem_filter.trans (and_congr_right fun _ => run_isSome)

/-- With every step more validators end, until no more do. -/
theorem stable_or_more (others : List Validator) (depth : Nat) :
    StableAt others depth ∨ depth ≤ (ending others depth).length := by
  induction depth with
  | zero => exact .inr (Nat.zero_le _)
  | succ depth ih =>
    rcases ih with stable | many
    · exact .inl stable.succ
    · by_cases stable : StableAt others depth
      · exact .inl stable.succ
      · right
        have sub : (ending others depth).Sublist (ending others (depth + 1)) := by
          refine List.monotone_filter_right others fun validator h => ?_
          exact run_isSome.2 ((run_isSome.1 h).mono (Nat.le_succ depth))
        refine Nat.lt_of_le_of_lt many (Nat.lt_of_le_of_ne sub.length_le fun same => stable ?_)
        intro validator hmem ends
        have late : validator ∈ ending others (depth + 1) := mem_ending.2 ⟨hmem, ends⟩
        rw [← sub.eq_of_length same] at late
        exact (mem_ending.1 late).2

theorem stable_length (others : List Validator) : StableAt others others.length := by
  rcases stable_or_more others others.length with stable | many
  · exact stable
  · intro validator hmem _
    have all : ending others others.length = others :=
      List.filter_sublist.eq_of_length_le many
    rw [← all] at hmem
    exact (mem_ending.1 hmem).2

/-! ### All records -/

/-- A run that ends, ends within the depth of the record and one step for every validator. -/
theorem Ends.enough {depth : Nat} {validator : Validator} {record : Record}
    (h : Ends (find? others) depth validator record) :
    Ends (find? others) ((Value.record record).depth + others.length + 1) validator record := by
  induction depth generalizing validator record with
  | zero => exact h.elim
  | succ depth ih =>
    intro check hcheck value hvalue inner hinner
    have below := h check hcheck value hvalue inner hinner
    rcases asRecord_resolve hvalue with empty | less
    · rw [empty] at below ⊢
      obtain ⟨name, -, hfind⟩ := Option.bind_eq_some_iff.1 hinner
      exact ((stable_length others).ends (find?_mem hfind) below).mono (by omega)
    · exact (ih below).mono (by omega)

/-- What a run reports that ends at any depth is what `validate` has for it. -/
theorem validate_of_run {depth : Nat} {validator : Validator} {record : Record}
    {found : List Violation}
    (h : run (find? others) depth validator record FieldPath.root = some found) :
    validate validator others record = some found := by
  have ends : Ends (find? others) depth validator record := run_isSome.1 (by rw [h]; rfl)
  obtain ⟨other, hother⟩ := Option.isSome_iff_exists.1
    (run_isSome.2 (ends.enough.mono (Nat.le_succ _)) :
      (validate validator others record).isSome = true)
  -- Both runs report what a run to the greater of the two depths does.
  rcases Nat.le_total depth ((Value.record record).depth + others.length + 2) with le | le
  · exact run_mono le h
  · have same := run_mono le hother
    rw [h] at same
    exact hother.trans same.symm

/-- Where runs to every depth are the same, so is what `validate` has. -/
theorem validate_congr {others more : List Validator} {validator twin : Validator}
    {record other : Record}
    (same : ∀ depth, run (find? others) depth validator record FieldPath.root =
      run (find? more) depth twin other FieldPath.root) :
    validate validator others record = validate twin more other := by
  refine Option.ext fun found => ⟨fun h => ?_, fun h => ?_⟩
  · exact validate_of_run ((same _).symm.trans h)
  · exact validate_of_run ((same _).trans h)

/-- Only validators that can be handed over to count for a run. -/
theorem run_congr {lookup other : String → Option Validator} {region : String → Prop}
    (same : ∀ name, region name → lookup name = other name)
    (closed : ∀ name validator, region name → lookup name = some validator →
      ∀ check ∈ validator.checks, ∀ target, check.delegate = some target → region target)
    (depth : Nat) {validator : Validator}
    (inside : ∀ check ∈ validator.checks, ∀ target, check.delegate = some target → region target)
    (record : Record) (above : FieldPath) :
    run lookup depth validator record above = run other depth validator record above := by
  induction depth generalizing validator record above with
  | zero => rfl
  | succ depth ih =>
    rw [run, run]
    refine runChecks_congr fun check hcheck => ?_
    unfold runCheck
    cases resolve record check with
    | none => rfl
    | some value =>
      cases hdelegate : check.delegate with
      | none => rfl
      | some target =>
        have known := same target (inside check hcheck target hdelegate)
        simp only [Option.bind_some, ← known]
        cases hinner : lookup target with
        | none => rfl
        | some inner =>
          exact ih (closed target inner (inside check hcheck target hdelegate) hinner) _ _

end Validator
end FieldRules
