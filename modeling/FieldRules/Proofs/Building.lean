/-
The plans of a file before they are settled.

Where no two records have one name, building is done record by record: a record
has a plan of its own name when at least one of its markers becomes a check
(`ofFile_eq`).  Such plans are what settling expects: one for a record, none
without checks, and no check that hands over yet.
-/
import FieldRules.Plan.Settle
import Mathlib.Data.List.Nodup

namespace FieldRules
namespace Plan

open Go

/-- Records are declared under different names. -/
def DistinctRecords (file : SourceFile) : Prop :=
  ((file.decls.filter (·.isRecord)).map (·.name)).Nodup

instance (file : SourceFile) : Decidable (DistinctRecords file) :=
  inferInstanceAs (Decidable (List.Nodup _))

/-- The plans of a file before they are settled. -/
def initial (file : SourceFile) : List Plan :=
  (file.decls.filter (·.isRecord)).filterMap fun decl => (ofRecord file.decls decl).1

/-- What is found wrong with single markers, before plans are settled. -/
def initialDiagnostics (file : SourceFile) : List Diagnostic :=
  (file.decls.filter (·.isRecord)).flatMap fun decl => (ofRecord file.decls decl).2

/-! ### Checks -/

/-- What a check takes from where its marker occurs, and that it hands over to nothing yet. -/
theorem checkOf_ok {decls : List TypeDecl} {occurrence : Occurrence} {marker : Marker}
    {check : Check} (h : checkOf decls occurrence marker = .ok check) :
    check.path = occurrence.path ∧ check.guards = occurrence.guards ∧
      check.kind = Kind.ofType decls occurrence.type ∧ check.goType = occurrence.type.render ∧
      check.position = marker.position ∧ check.delegate = none := by
  unfold checkOf at h
  split at h
  · cases h
  · simp only at h
    split at h
    · cases h
    · split at h
      · cases h
      · cases h
        exact ⟨rfl, rfl, rfl, rfl, rfl, rfl⟩

/-- The rule of a check is the one that its marker names. -/
theorem checkOf_rule {decls : List TypeDecl} {occurrence : Occurrence} {marker : Marker}
    {check : Check} (h : checkOf decls occurrence marker = .ok check) :
    Rule.ofSpelling? marker.rule = some check.rule := by
  unfold checkOf at h
  split at h
  · cases h
  · next rule hrule =>
    simp only at h
    split at h
    · cases h
    · split at h
      · cases h
      · cases h
        exact hrule

/-- The rule of a check may be asked for on the kind of its field, and its argument has a type. -/
theorem checkOf_typed {decls : List TypeDecl} {occurrence : Occurrence} {marker : Marker}
    {check : Check} (h : checkOf decls occurrence marker = .ok check) :
    check.rule.accepts check.kind = true ∧
      typeArgument check.rule marker.argument check.kind = .ok check.argument := by
  unfold checkOf at h
  split at h
  · cases h
  · simp only at h
    split at h
    · cases h
    · next admitted =>
      split at h
      · cases h
      · next argument hargument =>
        cases h
        rw [Bool.or_eq_true, not_or, Bool.not_eq_true', Bool.not_eq_false] at admitted
        exact ⟨admitted.1, hargument⟩

theorem checkOrDiagnose_ok {decls : List TypeDecl} {record : String} {before : List Check}
    {occurrence : Occurrence} {marker : Marker} {check : Check}
    (h : checkOrDiagnose decls record before occurrence marker = .ok check) :
    checkOf decls occurrence marker = .ok check ∧ isTaken before check = false := by
  unfold checkOrDiagnose at h
  cases hcheck : checkOf decls occurrence marker with
  | error rejection => rw [hcheck] at h; cases h
  | ok made =>
    rw [hcheck] at h
    by_cases taken : isTaken before made = true
    · simp only [taken, if_true] at h
      cases h
    · simp only [taken] at h
      cases h
      exact ⟨rfl, Bool.eq_false_iff.2 taken⟩

/-- Every check behind those made before comes from one of the markers. -/
theorem mem_ofMarkers {decls : List TypeDecl} {record : String} {before : List Check}
    {markers : List (Occurrence × Marker)} {check : Check}
    (h : check ∈ (ofMarkers decls record before markers).1) :
    check ∈ before ∨ ∃ found ∈ markers, checkOf decls found.1 found.2 = .ok check := by
  induction markers generalizing before with
  | nil => exact Or.inl h
  | cons found markers ih =>
    obtain ⟨occurrence, marker⟩ := found
    unfold ofMarkers at h
    cases hstep : checkOrDiagnose decls record before occurrence marker with
    | ok made =>
      rw [hstep] at h
      rcases ih h with hbefore | ⟨found, hfound, hcheck⟩
      · rcases List.mem_append.1 hbefore with hbefore | hmade
        · exact Or.inl hbefore
        · rw [List.mem_singleton.1 hmade]
          exact Or.inr ⟨_, List.mem_cons_self, (checkOrDiagnose_ok hstep).1⟩
      · exact Or.inr ⟨found, List.mem_cons_of_mem _ hfound, hcheck⟩
    | error d =>
      rw [hstep] at h
      rcases ih h with hbefore | ⟨found, hfound, hcheck⟩
      · exact Or.inl hbefore
      · exact Or.inr ⟨found, List.mem_cons_of_mem _ hfound, hcheck⟩

/-- Every diagnostic is what one of the markers comes to. -/
theorem mem_ofMarkers_error {decls : List TypeDecl} {record : String} {before : List Check}
    {markers : List (Occurrence × Marker)} {d : Diagnostic}
    (h : d ∈ (ofMarkers decls record before markers).2) :
    ∃ found ∈ markers, ∃ before,
      checkOrDiagnose decls record before found.1 found.2 = .error d := by
  induction markers generalizing before with
  | nil => cases h
  | cons found markers ih =>
    obtain ⟨occurrence, marker⟩ := found
    have later (before : List Check) (h : d ∈ (ofMarkers decls record before markers).2) :
        ∃ found ∈ (occurrence, marker) :: markers, ∃ before,
          checkOrDiagnose decls record before found.1 found.2 = .error d := by
      obtain ⟨found, hfound, told⟩ := ih h
      exact ⟨found, List.mem_cons_of_mem _ hfound, told⟩
    unfold ofMarkers at h
    cases hstep : checkOrDiagnose decls record before occurrence marker with
    | ok made =>
      rw [hstep] at h
      exact later _ h
    | error first =>
      rw [hstep] at h
      rcases List.mem_cons.1 h with rfl | h
      · exact ⟨_, List.mem_cons_self, before, hstep⟩
      · exact later _ h

theorem mem_wellFormed {decl : TypeDecl} {found : Occurrence × Marker}
    (h : found ∈ wellFormed decl) :
    found.1 ∈ Occurrence.inRecord decl ∧ found.1.reading = .ok found.2 := by
  obtain ⟨occurrence, hoccurrence, hreading⟩ := List.mem_filterMap.1 h
  cases hr : occurrence.reading with
  | error bad => rw [hr] at hreading; cases hreading
  | ok marker =>
    rw [hr] at hreading
    cases hreading
    exact ⟨hoccurrence, hr⟩

/-! ### Plans of records -/

theorem ofRecord_some {decls : List TypeDecl} {decl : TypeDecl} {plan : Plan}
    (h : (ofRecord decls decl).1 = some plan) :
    plan.checks ≠ [] ∧
      plan = ⟨decl.name, decl.position, (ofMarkers decls decl.name [] (wellFormed decl)).1⟩ := by
  unfold ofRecord at h
  simp only at h
  split at h
  · cases h
  · next hne =>
    cases h
    exact ⟨fun hnil => hne (List.isEmpty_iff.2 hnil), rfl⟩

/-- Every check of a plan comes from a marker that occurs in the record. -/
theorem mem_ofRecord_checks {decls : List TypeDecl} {decl : TypeDecl} {plan : Plan}
    (h : (ofRecord decls decl).1 = some plan) {check : Check} (hcheck : check ∈ plan.checks) :
    ∃ occurrence ∈ Occurrence.inRecord decl, ∃ marker, occurrence.reading = .ok marker ∧
      checkOf decls occurrence marker = .ok check := by
  obtain ⟨-, rfl⟩ := ofRecord_some h
  rcases mem_ofMarkers hcheck with hnone | ⟨found, hfound, hfrom⟩
  · cases hnone
  · obtain ⟨hoccurs, hreading⟩ := mem_wellFormed hfound
    exact ⟨found.1, hoccurs, found.2, hreading, hfrom⟩

theorem mem_initial {file : SourceFile} {plan : Plan} :
    plan ∈ initial file ↔
      ∃ decl ∈ file.decls.filter (·.isRecord), (ofRecord file.decls decl).1 = some plan :=
  List.mem_filterMap

theorem initial_nonempty (file : SourceFile) : ∀ plan ∈ initial file, plan.checks ≠ [] := by
  intro plan hplan
  obtain ⟨decl, _, hplan⟩ := mem_initial.1 hplan
  exact (ofRecord_some hplan).1

/-! ### All records -/

theorem insert_of_not_mem {plan : Plan} {plans : List Plan} (h : plan.record ∉ names plans) :
    insert plan plans = plans ++ [plan] := by
  induction plans with
  | nil => rfl
  | cons other plans ih =>
    simp only [names, List.map_cons, List.mem_cons, not_or] at h
    rw [insert, if_neg (Ne.symm h.1), ih h.2, List.cons_append]

theorem mem_insert {plan other : Plan} {plans : List Plan} (h : other ∈ insert plan plans) :
    other = plan ∨ other ∈ plans := by
  induction plans with
  | nil => exact Or.inl (List.mem_singleton.1 h)
  | cons first plans ih =>
    rw [insert] at h
    split at h
    · rcases List.mem_cons.1 h with rfl | h
      · exact Or.inl rfl
      · exact Or.inr (List.mem_cons_of_mem _ h)
    · rcases List.mem_cons.1 h with rfl | h
      · exact Or.inr List.mem_cons_self
      · exact (ih h).imp_right (List.mem_cons_of_mem _)

/-- Whether names are different or not, every plan is that of a record. -/
theorem mem_ofRecords {decls : List TypeDecl} {plans : List Plan} {records : List TypeDecl}
    {plan : Plan} (h : plan ∈ (ofRecords decls plans records).1) :
    plan ∈ plans ∨ ∃ decl ∈ records, (ofRecord decls decl).1 = some plan := by
  induction records generalizing plans with
  | nil => exact Or.inl h
  | cons decl records ih =>
    rw [ofRecords] at h
    rcases ih h with hplans | ⟨other, hother, hplan⟩
    · cases hdecl : (ofRecord decls decl).1 with
      | none =>
        rw [hdecl] at hplans
        exact Or.inl hplans
      | some made =>
        rw [hdecl] at hplans
        rcases mem_insert hplans with rfl | hplans
        · exact Or.inr ⟨decl, List.mem_cons_self, hdecl⟩
        · exact Or.inl hplans
    · exact Or.inr ⟨other, List.mem_cons_of_mem _ hother, hplan⟩

/-- With different names no plan takes the place of another. -/
theorem ofRecords_eq (decls : List TypeDecl) (plans : List Plan) (records : List TypeDecl)
    (distinct : (names plans ++ records.map (·.name)).Nodup) :
    ofRecords decls plans records =
      (plans ++ records.filterMap fun decl => (ofRecord decls decl).1,
        records.flatMap fun decl => (ofRecord decls decl).2) := by
  induction records generalizing plans with
  | nil => simp [ofRecords]
  | cons decl records ih =>
    unfold ofRecords
    cases h : (ofRecord decls decl).1 with
    | none =>
      have fewer : (names plans ++ records.map (·.name)).Nodup :=
        distinct.sublist ((List.sublist_cons_self _ _).append_left _)
      simp [h, ih plans fewer]
    | some plan =>
      have hname : plan.record = decl.name := congrArg Plan.record (ofRecord_some h).2
      have apart : plan.record ∉ names plans := by
        rw [hname]
        intro hmem
        exact (List.nodup_append.1 distinct).2.2 _ hmem _ List.mem_cons_self rfl
      have more : (names (plans ++ [plan]) ++ records.map (·.name)).Nodup := by
        simpa [names, hname] using distinct
      simp [h, insert_of_not_mem apart, ih (plans ++ [plan]) more]

/-- Building and settling, where no two records have one name. -/
theorem ofFile_eq {file : SourceFile} (distinct : DistinctRecords file) :
    ofFile file = ((settle (initial file)).1,
      initialDiagnostics file ++ (settle (initial file)).2) := by
  unfold ofFile
  rw [ofRecords_eq file.decls [] _ distinct]
  rfl

end Plan
end FieldRules
