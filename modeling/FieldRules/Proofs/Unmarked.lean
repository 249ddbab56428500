/-
Which records have neither a plan nor a diagnostic.

A marker of a record becomes a check or a diagnostic, and a check that is dropped
becomes a diagnostic.  So no record with a marker is without both, however many
records share its name (`ofFile_marked`).  A record without markers has neither
(`ofFile_unmarked`), and those are the records whose files are taken away
(`mem_unplanned`).
-/
import FieldRules.CommandLine.Outputs
import FieldRules.Proofs.Accounting
import FieldRules.Proofs.Separation

namespace FieldRules

open Go

/-- A record is declared, and no marker line stands anywhere in a record of its name. -/
def Go.SourceFile.IsUnmarked (file : SourceFile) (record : String) : Prop :=
  record ∈ (file.decls.filter (·.isRecord)).map (·.name) ∧
    ∀ decl ∈ file.decls, decl.isRecord = true → decl.name = record →
      Occurrence.inRecord decl = []

namespace Mark

variable {ds : List Diagnostic} {marks : List Mark}

theorem Reported.exists_diagnostic (h : Reported ds marks) {mark : Mark} (hmark : mark ∈ marks) :
    ∃ d ∈ ds, d.record = mark.record := by
  obtain ⟨d, hd, about⟩ := exists_related h.flip hmark
  exact ⟨d, hd, about.1⟩

theorem Reported.exists_mark (h : Reported ds marks) {d : Diagnostic} (hd : d ∈ ds) :
    ∃ mark ∈ marks, IsReportedBy d mark :=
  exists_related h hd

theorem mem_ofChecks {plans : List Plan} {mark : Mark} :
    mark ∈ ofChecks plans ↔
      ∃ plan ∈ plans, ∃ check ∈ plan.checks, ofCheck plan.record check = mark := by
  simp [ofChecks]

end Mark

namespace Plan

open Mark

variable {decls : List TypeDecl} {decl : TypeDecl} {plan : Plan} {plans left : List Plan}
  {records : List TypeDecl} {record : String} {ds : List Diagnostic}

/-! ### One record -/

theorem ofRecord_unmarked (unmarked : Occurrence.inRecord decl = []) :
    ofRecord decls decl = (none, []) := by
  unfold ofRecord wellFormed malformed
  rw [unmarked]
  rfl

theorem ofRecord_marked (decls : List TypeDecl) (marked : Occurrence.inRecord decl ≠ []) :
    (∃ plan, (ofRecord decls decl).1 = some plan) ∨
      ∃ d ∈ (ofRecord decls decl).2, d.record = decl.name := by
  obtain ⟨rejected, reported, perm⟩ := ofRecord_accounts decls decl
  obtain ⟨occurrence, hoccurrence⟩ := List.exists_mem_of_ne_nil _ marked
  have hmark : ofOccurrence decl.name occurrence ∈ Mark.inRecord decl := by
    rw [Mark.inRecord_eq]
    exact List.mem_map_of_mem hoccurrence
  rcases List.mem_append.1 (perm.mem_iff.2 hmark) with made | lost
  · obtain ⟨plan, hplan, -⟩ := mem_ofChecks.1 made
    exact .inl ⟨plan, Option.mem_toList.1 hplan⟩
  · exact .inr (reported.exists_diagnostic lost)

/-! ### All records -/

theorem names_insert (plan : Plan) (plans : List Plan) :
    plan.record ∈ names (insert plan plans) ∧ names plans ⊆ names (insert plan plans) := by
  induction plans with
  | nil => exact ⟨List.mem_cons_self, List.nil_subset _⟩
  | cons other plans ih =>
    unfold insert
    split
    · next same =>
      refine ⟨List.mem_cons_self, ?_⟩
      show other.record :: names plans ⊆ plan.record :: names plans
      rw [same]
      exact List.Subset.refl _
    · exact ⟨List.mem_cons_of_mem _ ih.1, List.cons_subset_cons _ ih.2⟩

/-- Plans keep their names when further records are read, and diagnostics stay. -/
theorem ofRecords_grows (decls : List TypeDecl) (plans : List Plan) (records : List TypeDecl) :
    names plans ⊆ names (ofRecords decls plans records).1 ∧
      ∀ decl ∈ records,
        (∀ plan, (ofRecord decls decl).1 = some plan →
          plan.record ∈ names (ofRecords decls plans records).1) ∧
        (ofRecord decls decl).2 ⊆ (ofRecords decls plans records).2 := by
  induction records generalizing plans with
  | nil => exact ⟨List.Subset.refl _, fun decl hdecl => nomatch hdecl⟩
  | cons first records ih =>
    obtain ⟨keeps, rest⟩ :=
      ih (((ofRecord decls first).1.map (insert · plans)).getD plans)
    unfold ofRecords
    constructor
    · refine List.Subset.trans ?_ keeps
      cases (ofRecord decls first).1 with
      | none => exact List.Subset.refl _
      | some plan => exact (names_insert plan plans).2
    · intro decl hdecl
      rcases List.mem_cons.1 hdecl with rfl | hdecl
      · refine ⟨fun plan made => keeps ?_, List.subset_append_left _ _⟩
        rw [made]
        exact (names_insert plan plans).1
      · exact ⟨(rest decl hdecl).1,
          List.Subset.trans (rest decl hdecl).2 (List.subset_append_right _ _)⟩

theorem mem_ofRecords_snd {d : Diagnostic} (h : d ∈ (ofRecords decls plans records).2) :
    ∃ decl ∈ records, d ∈ (ofRecord decls decl).2 := by
  induction records generalizing plans with
  | nil => cases h
  | cons decl records ih =>
    unfold ofRecords at h
    rcases List.mem_append.1 h with h | h
    · exact ⟨decl, List.mem_cons_self, h⟩
    · obtain ⟨other, hother, h⟩ := ih h
      exact ⟨other, List.mem_cons_of_mem _ hother, h⟩

/-! ### Settling -/

/-- A plan stays, or a diagnostic about its record tells of it. -/
theorem Settles.planned_or_reported (h : Settles plans left ds) (hplan : plan ∈ plans)
    (nonempty : plan.checks ≠ []) :
    plan.record ∈ names left ∨ ∃ d ∈ ds, d.record = plan.record := by
  obtain ⟨lost, reported, perm⟩ := h.accounts
  obtain ⟨check, hcheck⟩ := List.exists_mem_of_ne_nil _ nonempty
  have hmark := mem_ofChecks.2 ⟨plan, hplan, check, hcheck, rfl⟩
  rcases List.mem_append.1 (perm.mem_iff.2 hmark) with stays | dropped
  · obtain ⟨other, hother, made, -, same⟩ := mem_ofChecks.1 stays
    have name : other.record = plan.record := congrArg Mark.record same
    exact .inl (name ▸ List.mem_map_of_mem hother)
  · exact .inr (reported.exists_diagnostic dropped)

theorem Settles.reports_planned (h : Settles plans left ds) {d : Diagnostic} (hd : d ∈ ds) :
    d.record ∈ names plans := by
  obtain ⟨lost, reported, perm⟩ := h.accounts
  obtain ⟨mark, hmark, same, -, -⟩ := reported.exists_mark hd
  obtain ⟨plan, hplan, check, -, rfl⟩ :=
    mem_ofChecks.1 (perm.mem_iff.1 (List.mem_append_right _ hmark))
  exact same ▸ List.mem_map_of_mem hplan

/-! ### Files -/

variable {file : SourceFile}

/-- A record with a marker has a plan or a diagnostic. -/
theorem ofFile_marked (hdecl : decl ∈ file.decls) (isRecord : decl.isRecord = true)
    (marked : Occurrence.inRecord decl ≠ []) :
    decl.name ∈ names (ofFile file).1 ∨ ∃ d ∈ (ofFile file).2, d.record = decl.name := by
  have listed : decl ∈ file.decls.filter (·.isRecord) := List.mem_filter.2 ⟨hdecl, isRecord⟩
  obtain ⟨planned, reported⟩ := (ofRecords_grows file.decls [] _).2 decl listed
  rcases ofRecord_marked file.decls marked with ⟨plan, made⟩ | ⟨d, hd, same⟩
  · have name : plan.record = decl.name := congrArg Plan.record (ofRecord_some made).2
    obtain ⟨built, hbuilt, record⟩ := List.mem_map.1 (planned plan made)
    have nonempty : built.checks ≠ [] := by
      rcases mem_ofRecords hbuilt with hnone | ⟨other, -, hother⟩
      · cases hnone
      · exact (ofRecord_some hother).1
    have settled := settle_settles (ofRecords file.decls [] (file.decls.filter (·.isRecord))).1
    rcases settled.planned_or_reported hbuilt nonempty with stays | ⟨d, hd, same⟩
    · exact .inl (name ▸ record ▸ stays)
    · exact .inr ⟨d, List.mem_append_right _ hd, same.trans (record.trans name)⟩
  · exact .inr ⟨d, List.mem_append_left _ (reported hd), same⟩

/-- A record without markers has neither. -/
theorem ofFile_unmarked (unmarked : file.IsUnmarked record) :
    record ∉ names (ofFile file).1 ∧ ∀ d ∈ (ofFile file).2, d.record ≠ record := by
  have none {decl : TypeDecl} (hdecl : decl ∈ file.decls.filter (·.isRecord))
      (same : decl.name = record) : ofRecord file.decls decl = (none, []) := by
    obtain ⟨hdecl, isRecord⟩ := List.mem_filter.1 hdecl
    exact ofRecord_unmarked (unmarked.2 decl hdecl isRecord same)
  have unplanned :
      record ∉ names (ofRecords file.decls [] (file.decls.filter (·.isRecord))).1 := by
    intro planned
    obtain ⟨plan, hplan, same⟩ := List.mem_map.1 planned
    rcases mem_ofRecords hplan with hnone | ⟨decl, hdecl, made⟩
    · cases hnone
    · have name : plan.record = decl.name := congrArg Plan.record (ofRecord_some made).2
      rw [none hdecl (name.symm.trans same)] at made
      cases made
  have settled := settle_settles (ofRecords file.decls [] (file.decls.filter (·.isRecord))).1
  refine ⟨fun planned => unplanned (settled.names_subset planned), fun d hd same => ?_⟩
  rcases List.mem_append.1 hd with hd | hd
  · obtain ⟨decl, hdecl, hd⟩ := mem_ofRecords_snd hd
    rw [none hdecl ((mem_ofRecord_snd hd).symm.trans same)] at hd
    cases hd
  · exact unplanned (same ▸ settled.reports_planned hd)

end Plan

namespace CommandLine

/-- The records that should have no file are those without markers. -/
theorem mem_unplanned {options : Emission.Options} {sourceName record : String}
    {file : SourceFile} :
    record ∈ unplanned (CompiledUnit.ofFile options sourceName file) ↔ file.IsUnmarked record := by
  have reported : Diagnostic.hasRecord record
      (CompiledUnit.ofFile options sourceName file).diagnostics = true ↔
        ∃ d ∈ (Plan.ofFile file).2, d.record = record := by
    unfold Diagnostic.hasRecord
    rw [List.any_eq_true]
    simp only [beq_iff_eq]
    exact exists_congr fun d => and_congr_left fun _ => (Diagnostic.sort_perm _).mem_iff
  have kept : record ∈ unplanned (CompiledUnit.ofFile options sourceName file) ↔
      record ∈ (file.decls.filter (·.isRecord)).map (·.name) ∧
        record ∉ Plan.names (Plan.ofFile file).1 ∧
          ¬∃ d ∈ (Plan.ofFile file).2, d.record = record := by
    unfold unplanned
    rw [List.mem_filter, Bool.and_eq_true, Bool.not_eq_true', Bool.not_eq_true',
      Bool.eq_false_iff, Bool.eq_false_iff, Ne, Ne, reported, List.contains_iff_mem]
    rfl
  rw [kept]
  constructor
  · rintro ⟨listed, planned, diagnosed⟩
    refine ⟨listed, fun decl hdecl isRecord same => ?_⟩
    by_contra marked
    rcases Plan.ofFile_marked hdecl isRecord marked with found | found
    · exact planned (same ▸ found)
    · exact diagnosed (same ▸ found)
  · intro unmarked
    obtain ⟨planned, diagnosed⟩ := Plan.ofFile_unmarked unmarked
    exact ⟨unmarked.1, planned, fun ⟨d, hd, same⟩ => diagnosed d hd same⟩

end CommandLine
end FieldRules
