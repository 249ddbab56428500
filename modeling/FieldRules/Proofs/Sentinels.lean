/-
The error variables of a source have different names.

A name that is taken gets a number, and the numbers are tried in turn.  More numbers
are tried than names are taken, so the search ends with a free one
(`renames_freeName`), and the names of one plan differ whatever its checks are
(`Names.nodup`).  What follows the record in a name has no underscore, however the
path is spelled: the last underscore ends the record (`eq_of_last_underscore`), and
names of different records do not meet.
-/
import FieldRules.Proofs.Imports
import FieldRules.Proofs.Naming
import Mathlib.Data.List.Perm.Subperm
import Mathlib.Data.List.ReduceOption

namespace FieldRules
namespace Emission

open Text

/-! ### The search for a number -/

/-- The numbers from `n` on are tried up to the first that makes a free name. -/
inductive Numbers (taken : List String) (base : String) : Nat → String → Prop where
  | free {n : Nat} : base ++ toString n ∉ taken → Numbers taken base n (base ++ toString n)
  | next {n : Nat} {name : String} : base ++ toString n ∈ taken → Numbers taken base (n + 1) name →
      Numbers taken base n name

/-- A name is kept where it is free, and else gets a number. -/
inductive Renames (taken : List String) (base : String) : String → Prop where
  | kept : base ∉ taken → Renames taken base base
  | numbered {name : String} : base ∈ taken → Numbers taken base 2 name → Renames taken base name

/-- Checks are named in turn; the name of one is taken for those behind it. -/
inductive Names (record : String) : List String → List Check → List (Option String) → Prop where
  | nil {taken : List String} : Names record taken [] []
  | handedOver {taken : List String} {check : Check} {checks : List Check}
      {names : List (Option String)} : check.delegate ≠ none → Names record taken checks names →
      Names record taken (check :: checks) (none :: names)
  | own {taken : List String} {check : Check} {checks : List Check} {name : String}
      {names : List (Option String)} : check.delegate = none →
      Renames taken (sentinelBase record check) name → Names record (name :: taken) checks names →
      Names record taken (check :: checks) (some name :: names)

variable {taken : List String} {base name record : String}

theorem numbers_numbered {fuel n free : Nat} (le : n ≤ free) (enough : free ≤ n + fuel)
    (isFree : base ++ toString free ∉ taken) :
    Numbers taken base n (numbered taken base fuel n) := by
  induction fuel generalizing n with
  | zero =>
    obtain rfl : n = free := Nat.le_antisymm le enough
    exact .free isFree
  | succ fuel ih =>
    unfold numbered
    by_cases used : base ++ toString n ∈ taken
    · have ne : n ≠ free := by
        rintro rfl
        exact isFree used
      simp only [List.contains_iff_mem.2 used, if_true]
      exact .next used (ih (by omega) (by omega))
    · simp only [List.contains_eq_mem, used, decide_false, Bool.false_eq_true, if_false]
      exact .free used

theorem number_inj {n m : Nat} (same : toString n = toString m) : n = m := by
  have digits : Nat.toDigits 10 n = Nat.toDigits 10 m := by
    rw [← Nat.toList_repr, ← Nat.toList_repr]
    exact congrArg String.toList same
  rw [← Nat.ofDigitChars_ten_toDigits (n := n), digits, Nat.ofDigitChars_ten_toDigits]

/-- Of one more numbers than names are taken, one makes a free name. -/
theorem exists_free (taken : List String) (base : String) :
    ∃ free, 2 ≤ free ∧ free ≤ 2 + taken.length ∧ base ++ toString free ∉ taken := by
  by_contra none
  simp only [not_exists, not_and, not_not] at none
  have used : (List.range' 2 (taken.length + 1)).map (fun n => base ++ toString n) ⊆ taken := by
    intro name hname
    obtain ⟨n, hn, rfl⟩ := List.mem_map.1 hname
    have bounds := List.mem_range'_1.1 hn
    exact none n bounds.1 (by omega)
  have differ : ((List.range' 2 (taken.length + 1)).map fun n => base ++ toString n).Nodup := by
    refine List.Nodup.map (fun n m same => ?_) List.nodup_range'
    exact number_inj ((String.append_right_inj base).1 same)
  have many := (differ.subperm used).length_le
  rw [List.length_map, List.length_range'] at many
  omega

/-- The search for a free name ends, whatever names are taken. -/
theorem renames_freeName (taken : List String) (base : String) :
    Renames taken base (freeName taken base) := by
  unfold freeName
  by_cases used : base ∈ taken
  · obtain ⟨free, least, most, isFree⟩ := exists_free taken base
    simp only [List.contains_iff_mem.2 used, if_true]
    exact .numbered used (numbers_numbered least most isFree)
  · simp only [List.contains_eq_mem, used, decide_false, Bool.false_eq_true, if_false]
    exact .kept used

theorem names_sentinelsFrom (record : String) (taken : List String) (checks : List Check) :
    Names record taken checks (sentinelsFrom record taken checks) := by
  induction checks generalizing taken with
  | nil => exact .nil
  | cons check checks ih =>
    unfold sentinelsFrom
    cases delegate : check.delegate with
    | some target => exact .handedOver (by simp [delegate]) (ih taken)
    | none => exact .own delegate (renames_freeName _ _) (ih _)

/-! ### The names of one plan -/

theorem Numbers.not_taken {n : Nat} (h : Numbers taken base n name) : name ∉ taken := by
  induction h with
  | free isFree => exact isFree
  | next _ _ ih => exact ih

theorem Renames.not_taken (h : Renames taken base name) : name ∉ taken := by
  cases h with
  | kept free => exact free
  | numbered _ numbers => exact numbers.not_taken

namespace Names

variable {checks : List Check} {names : List (Option String)}

theorem not_taken (h : Names record taken checks names) :
    ∀ name ∈ names.reduceOption, name ∉ taken := by
  induction h with
  | nil => exact fun name hname => nomatch hname
  | handedOver _ _ ih => exact ih
  | own _ renames _ ih =>
    rw [List.reduceOption_cons_of_some]
    refine List.forall_mem_cons.2 ⟨renames.not_taken, fun other hother used => ?_⟩
    exact ih other hother (List.mem_cons_of_mem _ used)

theorem nodup (h : Names record taken checks names) : names.reduceOption.Nodup := by
  induction h with
  | nil => exact List.nodup_nil
  | handedOver _ _ ih => exact ih
  | own _ _ rest ih =>
    rw [List.reduceOption_cons_of_some]
    exact List.nodup_cons.2 ⟨fun again => rest.not_taken _ again List.mem_cons_self, ih⟩

/-- The checks that have names are those that are not handed over. -/
theorem isSome_iff (h : Names record taken checks names) :
    List.Forall₂ (fun check name => name.isSome = true ↔ check.delegate = none) checks names := by
  induction h with
  | nil => exact .nil
  | handedOver delegate _ ih => exact .cons (by simp [delegate]) ih
  | own delegate _ _ ih => exact .cons (by simp [delegate]) ih

end Names

/-- What holds of a name with any number holds of the one that is found. -/
theorem Numbers.forall {P : String → Prop} {n : Nat} (h : Numbers taken base n name)
    (numbers : ∀ n : Nat, P (base ++ toString n)) : P name := by
  induction h with
  | free _ => exact numbers _
  | next _ _ ih => exact ih

/-- What holds of the names that checks have unless they are taken, and of a name with a number if
it does of the name, holds of all names. -/
theorem Names.forall {P : String → Prop} {checks : List Check} {names : List (Option String)}
    (h : Names record taken checks names)
    (bases : ∀ check ∈ checks, check.delegate = none → P (sentinelBase record check))
    (numbers : ∀ name (n : Nat), P name → P (name ++ toString n)) :
    ∀ name ∈ names.reduceOption, P name := by
  induction h with
  | nil => exact fun name hname => nomatch hname
  | handedOver _ _ ih => exact ih (List.forall_mem_cons.1 bases).2
  | own delegate renames _ ih =>
    obtain ⟨first, rest⟩ := List.forall_mem_cons.1 bases
    rw [List.reduceOption_cons_of_some]
    refine List.forall_mem_cons.2 ⟨?_, ih rest⟩
    cases renames with
    | kept => exact first delegate
    | numbered _ found => exact found.forall fun n => numbers _ n (first delegate)

/-! ### The record in a name -/

/-- The name is that of an error variable of a record: behind the record and an underscore there
is none. -/
def IsNameOf (record name : String) : Prop :=
  ∃ rest, name.toList = "Err".toList ++ record.toList ++ '_' :: rest ∧ '_' ∉ rest

theorem underscore_not_pascal (segment : String) : '_' ∉ pascal segment := by
  unfold pascal
  intro found
  obtain ⟨piece, hpiece, found⟩ := List.mem_flatMap.1 found
  have plain := not_mem_of_mem_splitAt hpiece
  cases piece with
  | nil => cases found
  | cons c cs =>
    have first : c ≠ '_' := fun same => plain (same ▸ List.mem_cons_self)
    rcases List.mem_append.1 found with found | found
    · exact underscore_not_upper first found
    · exact plain (List.mem_cons_of_mem _ found)

theorem underscore_not_rulePart (rule : Rule) : '_' ∉ (rulePart rule).toList := by
  cases rule <;> decide

theorem isNameOf_base (record : String) (check : Check) :
    IsNameOf record (sentinelBase record check) := by
  refine ⟨check.path.segments.flatMap pascal ++ (rulePart check.rule).toList ++
    "Validation".toList, ?_, ?_⟩
  · simp [sentinelBase]
  · simp only [List.mem_append, List.mem_flatMap, not_or, not_exists, not_and]
    exact ⟨⟨fun segment _ => underscore_not_pascal segment, underscore_not_rulePart _⟩, by decide⟩

theorem IsNameOf.append_number (h : IsNameOf record base) (n : Nat) :
    IsNameOf record (base ++ toString n) := by
  obtain ⟨rest, spelled, plain⟩ := h
  refine ⟨rest ++ (toString n).toList, by simp [spelled], ?_⟩
  rw [List.mem_append, not_or, Nat.toString_eq_repr, Nat.toList_repr]
  refine ⟨plain, fun found => ?_⟩
  have digit : '_'.isDigit = true := Nat.isDigit_of_mem_toDigits (by decide) (by decide) found
  cases digit

theorem Names.isNameOf {checks : List Check} {names : List (Option String)}
    (h : Names record taken checks names) : ∀ name ∈ names.reduceOption, IsNameOf record name :=
  h.forall (fun check _ _ => isNameOf_base record check) fun _ n isNameOf =>
    isNameOf.append_number n

/-- What stands before the last underscore is determined. -/
theorem eq_of_last_underscore {as bs cs ds : List Char} (hcs : '_' ∉ cs) (hds : '_' ∉ ds)
    (same : as ++ '_' :: cs = bs ++ '_' :: ds) : as = bs := by
  have within {cs ds between : List Char} (hcs : '_' ∉ cs)
      (split : '_' :: cs = between ++ '_' :: ds) : between = [] := by
    cases between with
    | nil => rfl
    | cons c between =>
      obtain ⟨-, rfl⟩ := List.cons.inj split
      exact absurd (List.mem_append_right _ List.mem_cons_self) hcs
  rcases List.append_eq_append_iff.1 same with ⟨between, rfl, split⟩ | ⟨between, rfl, split⟩
  · rw [within hcs split, List.append_nil]
  · rw [within hds split, List.append_nil]

/-- The record is read off the name. -/
theorem IsNameOf.unique {other : String} (h : IsNameOf record name) (h' : IsNameOf other name) :
    record = other := by
  obtain ⟨rest, spelled, plain⟩ := h
  obtain ⟨more, spelled', plain'⟩ := h'
  have same := eq_of_last_underscore plain plain' (spelled.symm.trans spelled')
  exact String.toList_injective (List.append_cancel_left same)

end Emission

namespace CompiledUnit

open Emission

variable {options : Options} {sourceName source : String} {unit : CompiledUnit}

/-- The error variables of all checks of a source have different names, those of one record and
those of different ones, and none in a plan is named as the error for nil.  A check has a variable if and
only if it does not hand over.  The search for free names ends for any checks, whatever names are
taken before. -/
theorem compile_sentinels (compiled : compile options sourceName source = .ok unit) :
    (unit.plans.flatMap fun plan => (sentinels plan).reduceOption).Nodup ∧
    (∀ plan ∈ unit.plans, nilName plan.record ∉ (sentinels plan).reduceOption ∧
      List.Forall₂ (fun check name => name.isSome = true ↔ check.delegate = none)
        plan.checks (sentinels plan)) ∧
    ∀ record taken checks, Names record taken checks (sentinelsFrom record taken checks) := by
  obtain ⟨file, -, rfl⟩ := compile_eq_ok.1 compiled
  have names (plan : Plan) : Names plan.record [nilName plan.record] plan.checks (sentinels plan) :=
    names_sentinelsFrom _ _ _
  refine ⟨List.nodup_flatMap.2 ⟨fun plan _ => (names plan).nodup, ?_⟩, fun plan _ => ⟨?_, ?_⟩,
    names_sentinelsFrom⟩
  · have records : (Plan.ofFile file).1.Pairwise fun p q => p.record ≠ q.record :=
      List.pairwise_map.1 (Plan.nodup_ofFile file)
    refine records.imp fun {p q} differ name hp hq => differ ?_
    exact ((names p).isNameOf name hp).unique ((names q).isNameOf name hq)
  · exact fun found => (names plan).not_taken _ found List.mem_cons_self
  · exact (names plan).isSome_iff

/-- A source with three paths that make one name, and a record and a path that another record and
path are like but for an underscore. -/
def firstNames : String :=
  "package p
  type City struct \x7b
    // +govalid:required
    Name string
  \x7d
  type User struct \x7b
    // +govalid:required
    first_name string
    // +govalid:required
    Home City
    // +govalid:required
    firstName string
    // +govalid:required
    First struct \x7b
      // +govalid:required
      Name string
    \x7d
  \x7d
  type User_First struct \x7b
    // +govalid:required
    Name string
  \x7d
  "

set_option maxRecDepth 4000 in
theorem compile_sentinels_firstNames :
    ∃ unit, compile .default "a.go" firstNames = .ok unit ∧
      unit.plans.map sentinels =
        [[some "ErrCity_NameRequiredValidation"],
          [some "ErrUser_FirstNameRequiredValidation", none,
            some "ErrUser_FirstNameRequiredValidation2", some "ErrUser_FirstRequiredValidation",
            some "ErrUser_FirstNameRequiredValidation3"],
          [some "ErrUser_First_NameRequiredValidation"]] ∧
      (unit.plans.flatMap fun plan => (sentinels plan).reduceOption).Nodup ∧
      (∀ plan ∈ unit.plans, nilName plan.record ∉ (sentinels plan).reduceOption ∧
        List.Forall₂ (fun check name => name.isSome = true ↔ check.delegate = none)
          plan.checks (sentinels plan)) ∧
      ∀ record taken checks, Names record taken checks (sentinelsFrom record taken checks) := by
  obtain ⟨file, parsed, facts⟩ := Go.exists_parse (rfl : firstNames = _)
    (p := fun file => (ofFile .default "a.go" file).plans.map sentinels ==
        [[some "ErrCity_NameRequiredValidation"],
          [some "ErrUser_FirstNameRequiredValidation", none,
            some "ErrUser_FirstNameRequiredValidation2", some "ErrUser_FirstRequiredValidation",
            some "ErrUser_FirstNameRequiredValidation3"],
          [some "ErrUser_First_NameRequiredValidation"]])
    (by decide +kernel)
  have compiled : compile .default "a.go" firstNames = .ok (ofFile .default "a.go" file) :=
    compile_of_parse parsed
  exact ⟨_, compiled, beq_iff_eq.1 facts, compile_sentinels compiled⟩

end CompiledUnit
end FieldRules
