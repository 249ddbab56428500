/-
What the checks of a file's plans hand over to.

Whether records have different names or not, every plan of a file is that of a
record, settled for the records that have plans in the end (`mem_ofFile`).  So a
check hands over only to the record it requires, and only to one that has a plan
(`ofFile_delegate`).
-/
import FieldRules.Proofs.Building
import FieldRules.Proofs.Settling

namespace FieldRules
namespace Plan

open Go

theorem mem_ofFile {file : SourceFile} {plan : Plan} (h : plan ∈ (ofFile file).1) :
    ∃ decl ∈ file.decls.filter (·.isRecord), ∃ built, (ofRecord file.decls decl).1 = some built ∧
      plan = settleChecks (names (ofFile file).1) built ∧ plan.checks ≠ [] := by
  have settled := settle_settles (ofRecords file.decls [] (file.decls.filter (·.isRecord))).1
  have nonempty : ∀ plan ∈ (ofRecords file.decls [] (file.decls.filter (·.isRecord))).1,
      plan.checks ≠ [] := by
    intro plan hplan
    rcases mem_ofRecords hplan with hnone | ⟨decl, -, hplan⟩
    · cases hnone
    · exact (ofRecord_some hplan).1
  have left : plan ∈ trim (names (ofFile file).1)
      (ofRecords file.decls [] (file.decls.filter (·.isRecord))).1 := settled.eq_trim nonempty ▸ h
  obtain ⟨built, hbuilt, hplan, hne⟩ := mem_trim.1 left
  rcases mem_ofRecords hbuilt with hnone | ⟨decl, hdecl, hofRecord⟩
  · cases hnone
  · exact ⟨decl, hdecl, built, hofRecord, hplan.symm, hne⟩

/-- Every plan is that of a record of its name: its checks are made from markers of the record, and
settling only says what they hand over to. -/
theorem ofFile_markers {file : SourceFile} {plan : Plan} (hplan : plan ∈ (ofFile file).1) :
    ∃ decl ∈ file.decls, decl.isRecord = true ∧ decl.name = plan.record ∧
      ∀ check ∈ plan.checks, ∃ occurrence ∈ Occurrence.inRecord decl, ∃ marker made,
        occurrence.reading = .ok marker ∧ checkOf file.decls occurrence marker = .ok made ∧
          check = { made with delegate := check.delegate } := by
  obtain ⟨decl, hdecl, built, hofRecord, rfl, -⟩ := mem_ofFile hplan
  obtain ⟨hmem, isRecord⟩ := List.mem_filter.1 hdecl
  have hname : decl.name = built.record := (congrArg Plan.record (ofRecord_some hofRecord).2).symm
  refine ⟨decl, hmem, isRecord, hname, fun check hcheck => ?_⟩
  obtain ⟨made, hmade, hsettled⟩ := List.mem_filterMap.1 hcheck
  obtain ⟨occurrence, hoccurrence, marker, hreading, hcheckOf⟩ :=
    mem_ofRecord_checks hofRecord hmade
  exact ⟨occurrence, hoccurrence, marker, made, hreading, hcheckOf, (settleCheck_some hsettled).1⟩

/-- Every check of a plan is made from a marker of a record of the plan's name; settling only says
what it hands over to. -/
theorem mem_ofFile_marker {file : SourceFile} {plan : Plan} (hplan : plan ∈ (ofFile file).1)
    {check : Check} (hcheck : check ∈ plan.checks) :
    ∃ decl ∈ file.decls, decl.name = plan.record ∧
      ∃ occurrence ∈ Occurrence.inRecord decl, ∃ marker made, occurrence.reading = .ok marker ∧
        checkOf file.decls occurrence marker = .ok made ∧
        check = { made with delegate := check.delegate } := by
  obtain ⟨decl, hdecl, -, hname, markers⟩ := ofFile_markers hplan
  exact ⟨decl, hdecl, hname, markers check hcheck⟩

/-- Every plan has the name of a record. -/
theorem ofFile_record {file : SourceFile} {plan : Plan} (h : plan ∈ (ofFile file).1) :
    plan.record ∈ (file.decls.filter (·.isRecord)).map (·.name) := by
  obtain ⟨decl, hdecl, built, hbuilt, rfl, -⟩ := mem_ofFile h
  refine List.mem_map.2 ⟨decl, hdecl, ?_⟩
  rw [(ofRecord_some hbuilt).2]
  rfl

theorem nodup_insert {plan : Plan} {plans : List Plan} (h : (names plans).Nodup) :
    (names (insert plan plans)).Nodup := by
  induction plans with
  | nil => exact List.nodup_singleton _
  | cons other plans ih =>
    have fresh : other.record ∉ names plans := (List.nodup_cons.1 h).1
    have rest : (names plans).Nodup := (List.nodup_cons.1 h).2
    rw [insert]
    split
    · next same =>
      show (plan.record :: names plans).Nodup
      rw [← same]
      exact h
    · next ne =>
      refine List.nodup_cons.2 ⟨fun again => ?_, ih rest⟩
      obtain ⟨found, hfound, hname⟩ := List.mem_map.1 again
      rcases mem_insert hfound with rfl | hfound
      · exact ne hname.symm
      · exact fresh (List.mem_map.2 ⟨found, hfound, hname⟩)

theorem nodup_ofRecords {decls : List TypeDecl} {plans : List Plan} {records : List TypeDecl}
    (h : (names plans).Nodup) : (names (ofRecords decls plans records).1).Nodup := by
  induction records generalizing plans with
  | nil => exact h
  | cons decl records ih =>
    rw [ofRecords]
    refine ih ?_
    cases (ofRecord decls decl).1 with
    | none => exact h
    | some plan => exact nodup_insert h

/-- No two plans have one name. -/
theorem nodup_ofFile (file : SourceFile) : (names (ofFile file).1).Nodup := by
  have settled := settle_settles (ofRecords file.decls [] (file.decls.filter (·.isRecord))).1
  have none : (names []).Nodup := List.nodup_nil
  exact (nodup_ofRecords none).sublist settled.names_sublist

theorem settleCheck_delegate {kept : List String} {check settled : Check}
    (fresh : check.delegate = none) (h : settleCheck kept check = some settled) {name : String}
    (delegate : settled.delegate = some name) : target? check = some name ∧ name ∈ kept := by
  unfold settleCheck at h
  split at h
  · cases h
    rw [fresh] at delegate
    cases delegate
  · next target htarget =>
    split at h
    · next planned =>
      cases h
      cases delegate
      exact ⟨htarget, List.contains_iff_mem.1 planned⟩
    · split at h
      · cases h
        cases delegate
      · cases h

/-- A check hands over to the record it requires, which has a plan. -/
theorem ofFile_delegate {file : SourceFile} {plan : Plan} (hplan : plan ∈ (ofFile file).1)
    {check : Check} (hcheck : check ∈ plan.checks) {name : String}
    (delegate : check.delegate = some name) :
    target? check = some name ∧ name ∈ names (ofFile file).1 := by
  obtain ⟨decl, -, built, hbuilt, rfl, -⟩ := mem_ofFile hplan
  obtain ⟨made, hmade, hsettled⟩ := List.mem_filterMap.1 hcheck
  obtain ⟨_, _, _, _, hfrom⟩ := mem_ofRecord_checks hbuilt hmade
  have fresh := (checkOf_ok hfrom).2.2.2.2.2
  obtain ⟨htarget, hkept⟩ := settleCheck_delegate fresh hsettled delegate
  refine ⟨?_, hkept⟩
  rw [(settleCheck_some hsettled).1]
  exact htarget

end Plan
end FieldRules
