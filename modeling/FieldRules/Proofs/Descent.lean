/-
What a check is about, without the walk that finds it.

The walk goes down a path and gives up at the first pointer that is guarded and nil.
Where it ends, it has gone down as if there were no guards (`recordAt`), and it gives
up exactly if some guarded pointer above the field is nil (`resolve_eq_none`).  So
every check is about the value that its whole path leads to, if about any.
-/
import FieldRules.Validator

namespace FieldRules

/-- The record that a field holds, empty where the field is missing or holds no record. -/
def Record.below (record : Record) (name : String) : Record :=
  ((record.get? name).map Validator.asRecord).getD []

/-- The record at the end of some names. -/
def Record.recordAt (record : Record) : List String → Record
  | [] => record
  | name :: names => (record.below name).recordAt names

namespace Record

theorem recordAt_append (record : Record) (names more : List String) :
    record.recordAt (names ++ more) = (record.recordAt names).recordAt more := by
  induction names generalizing record with
  | nil => rfl
  | cons name names ih => exact ih (record.below name)

theorem recordAt_empty (names : List String) : Record.recordAt [] names = [] := by
  induction names with
  | nil => rfl
  | cons name names ih => exact ih

/-- Whether a field is missing or holds nil. -/
def isNilAt (record : Record) (name : String) : Bool :=
  match record.get? name with
  | none => true
  | some .null => true
  | some _ => false

end Record

namespace Validator

variable {guards : List FieldPath} {walked : FieldPath} {record : Record} {name leaf : String}
  {names : List String} {check : Check}

/-- A guarded pointer on the way down some names is nil. -/
def Stops (guards : List FieldPath) (walked : FieldPath) (record : Record)
    (names : List String) : Prop :=
  ∃ before name after, names = before ++ name :: after ∧
    ⟨walked.segments ++ before ++ [name]⟩ ∈ guards ∧ (record.recordAt before).isNilAt name = true

/-- The walk stops at the next name, or further down. -/
theorem stops_cons : Stops guards walked record (name :: names) ↔
    (walked.child name ∈ guards ∧ record.isNilAt name = true) ∨
      Stops guards (walked.child name) (record.below name) names := by
  constructor
  · rintro ⟨before, at', after, split, guarded, nil⟩
    cases before with
    | nil =>
      cases split
      rw [List.append_nil] at guarded
      exact .inl ⟨guarded, nil⟩
    | cons first before =>
      cases split
      refine .inr ⟨before, at', after, rfl, ?_, nil⟩
      rw [FieldPath.child, List.append_assoc, List.append_assoc]
      rw [List.append_assoc] at guarded
      exact guarded
  · rintro (⟨guarded, nil⟩ | ⟨before, at', after, rfl, guarded, nil⟩)
    · refine ⟨[], name, names, rfl, ?_, nil⟩
      rw [List.append_nil]
      exact guarded
    · refine ⟨name :: before, at', after, rfl, ?_, nil⟩
      rw [FieldPath.child, List.append_assoc, List.append_assoc] at guarded
      rw [List.append_assoc]
      exact guarded

/-- The next step of the walk. -/
theorem descend_cons : descend guards walked record (name :: names) =
    if walked.child name ∈ guards ∧ record.isNilAt name = true then none
    else descend guards (walked.child name) (record.below name) names := by
  rw [descend]
  unfold Record.below Record.isNilAt
  cases record.get? name with
  | none => simp
  | some value => cases value <;> simp [asRecord]

/-- The walk stops at a nil pointer, or it comes to the record at the end of the names. -/
theorem descend_eq (guards : List FieldPath) (walked : FieldPath) (record : Record)
    (names : List String) :
    (Stops guards walked record names ∧ descend guards walked record names = none) ∨
      (¬ Stops guards walked record names ∧
        descend guards walked record names = some (record.recordAt names)) := by
  induction names generalizing walked record with
  | nil =>
    refine .inr ⟨?_, rfl⟩
    rintro ⟨before, name, after, split, -⟩
    cases before <;> cases split
  | cons name names ih =>
    rw [descend_cons, stops_cons]
    by_cases here : walked.child name ∈ guards ∧ record.isNilAt name = true
    · exact .inl ⟨.inl here, if_pos here⟩
    · rw [if_neg here]
      rcases ih (walked.child name) (record.below name) with ⟨stops, found⟩ | ⟨goesOn, found⟩
      · exact .inl ⟨.inr stops, found⟩
      · exact .inr ⟨fun stops => stops.elim here goesOn, found⟩

/-- The check is behind a nil guard: above its field stands a guarded pointer that is missing or
nil. -/
def IsBehindNil (record : Record) (check : Check) : Prop :=
  Stops check.guards FieldPath.root record check.path.segments.dropLast

/-- What a check is about, where it is not behind a nil guard: the value of the last field of its
path in the record above it, zero where it is missing. -/
theorem resolve_eq (record : Record) (place : check.path.segments = names ++ [leaf]) :
    (IsBehindNil record check ∧ resolve record check = none) ∨
      (¬ IsBehindNil record check ∧ resolve record check =
        some (((record.recordAt names).get? leaf).getD (Value.zero check.kind))) := by
  unfold IsBehindNil resolve
  rw [place, List.getLast?_concat, List.dropLast_concat]
  rcases descend_eq check.guards FieldPath.root record names with
    ⟨stops, found⟩ | ⟨goesOn, found⟩
  · exact .inl ⟨stops, by rw [found]; rfl⟩
  · exact .inr ⟨goesOn, by rw [found]; rfl⟩

theorem path_split (path : check.path ≠ FieldPath.root) :
    ∃ names leaf, check.path.segments = names ++ [leaf] := by
  have filled : check.path.segments ≠ [] := fun empty => path (congrArg FieldPath.mk empty)
  exact ⟨_, _, (List.dropLast_concat_getLast filled).symm⟩

/-- A check whose path leads somewhere is about nothing exactly if it is behind a nil guard. -/
theorem resolve_eq_none (path : check.path ≠ FieldPath.root) :
    resolve record check = none ↔ IsBehindNil record check := by
  obtain ⟨names, leaf, place⟩ := path_split path
  rcases resolve_eq record place with ⟨behind, found⟩ | ⟨free, found⟩
  · exact ⟨fun _ => behind, fun _ => found⟩
  · refine ⟨fun none => ?_, fun behind => absurd behind free⟩
    rw [found] at none
    cases none

/-- What a check that hands over gives away is the record at its path. -/
theorem asRecord_resolve_eq {value : Value} (path : check.path ≠ FieldPath.root)
    (h : resolve record check = some value) :
    asRecord value = record.recordAt check.path.segments := by
  obtain ⟨names, leaf, place⟩ := path_split path
  rcases resolve_eq record place with ⟨-, found⟩ | ⟨-, found⟩
  · rw [found] at h
    cases h
  · rw [found] at h
    cases h
    rw [place, Record.recordAt_append]
    show _ = ((record.recordAt names).get? leaf |>.map asRecord).getD []
    cases (record.recordAt names).get? leaf with
    | none => cases check.kind <;> rfl
    | some value => rfl

end Validator
end FieldRules
