/-
Every marker line is accounted for.

A mark identifies a marker line in a record by the record, the path of the field
and the place of the line.  Compiling turns the marks of a file into checks and
diagnostics, each into exactly one (`compile_accounts`).  The stages are
followed one by one: a record parts its marks into checks and diagnostics, plans
are put together without loss as long as no two records have one name, and
settling turns some checks into diagnostics.
-/
import FieldRules.CompiledUnit
import FieldRules.Proofs.Building
import FieldRules.Proofs.Parsing
import FieldRules.Proofs.Settling
import FieldRules.Proofs.Sites
import Mathlib.Data.List.Forall2

namespace FieldRules

open Go Text

/-- Of two lists that are related one by one, whatever is in the first is related to something in
the second. -/
theorem exists_related {α β : Type} {r : α → β → Prop} {as : List α} {bs : List β}
    (h : List.Forall₂ r as bs) {a : α} (ha : a ∈ as) : ∃ b ∈ bs, r a b := by
  induction h with
  | nil => cases ha
  | cons first _ ih =>
    rcases List.mem_cons.1 ha with rfl | ha
    · exact ⟨_, List.mem_cons_self, first⟩
    · obtain ⟨b, hb, related⟩ := ih ha
      exact ⟨b, List.mem_cons_of_mem _ hb, related⟩

structure Mark where
  record : String
  path : FieldPath
  position : Position
  deriving DecidableEq, Repr

namespace Mark

/-- The marks of a record: one for each site and each marker line above it. -/
def inRecord (decl : TypeDecl) : List Mark :=
  (Site.inRecord decl).flatMap fun site =>
    (site.doc.flatMap Marker.placesIn).map fun position => ⟨decl.name, site.path, position⟩

def inFile (file : SourceFile) : List Mark := (file.decls.filter (·.isRecord)).flatMap inRecord

def ofCheck (record : String) (check : Check) : Mark := ⟨record, check.path, check.position⟩

def ofChecks (plans : List Plan) : List Mark :=
  plans.flatMap fun plan => plan.checks.map (ofCheck plan.record)

def ofOccurrence (record : String) (occurrence : Occurrence) : Mark :=
  ⟨record, occurrence.path, Marker.placeOf occurrence.reading⟩

/-- Whether a diagnostic is about a mark. -/
def IsReportedBy (d : Diagnostic) (mark : Mark) : Prop :=
  d.record = mark.record ∧ d.path = mark.path.render ∧ d.position = mark.position

/-- The diagnostics are about the marks, one about each. -/
abbrev Reported (ds : List Diagnostic) (marks : List Mark) : Prop :=
  List.Forall₂ IsReportedBy ds marks

theorem inRecord_eq (decl : TypeDecl) :
    inRecord decl = (Occurrence.inRecord decl).map (ofOccurrence decl.name) := by
  rw [Site.inRecord_occurrences, inRecord, List.map_flatMap]
  congr 1
  funext site
  rw [← Marker.ofDoc_places, List.map_map, Site.occurrences, Occurrence.ofName, List.map_map]
  rfl

end Mark

namespace Plan

open Mark

/-! ### One record -/

/-- A marker becomes a check at its place, or a diagnostic about it. -/
theorem checkOrDiagnose_mark (decls : List TypeDecl) (record : String) (before : List Check)
    (occurrence : Occurrence) (marker : Marker) :
    match checkOrDiagnose decls record before occurrence marker with
    | .ok check => ofCheck record check = ⟨record, occurrence.path, marker.position⟩
    | .error d => IsReportedBy d ⟨record, occurrence.path, marker.position⟩ := by
  unfold checkOrDiagnose
  cases h : checkOf decls occurrence marker with
  | error rejection => exact ⟨rfl, rfl, rfl⟩
  | ok check =>
    obtain ⟨hpath, -, -, -, hposition, -⟩ := checkOf_ok h
    by_cases taken : isTaken before check = true
    · simp only [taken, if_true]
      exact ⟨rfl, rfl, rfl⟩
    · simp only [taken]
      simp [ofCheck, hpath, hposition]

def markOf (record : String) (found : Occurrence × Marker) : Mark :=
  ⟨record, found.1.path, found.2.position⟩

/-- The markers of a record part into those that became checks and those that were reported. -/
theorem ofMarkers_accounts (decls : List TypeDecl) (record : String) (before : List Check)
    (markers : List (Occurrence × Marker)) :
    ∃ rejected, Reported (ofMarkers decls record before markers).2 rejected ∧
      ((ofMarkers decls record before markers).1.map (ofCheck record) ++ rejected).Perm
        (before.map (ofCheck record) ++ markers.map (markOf record)) := by
  induction markers generalizing before with
  | nil => exact ⟨[], List.Forall₂.nil, by simp [ofMarkers]⟩
  | cons found markers ih =>
    obtain ⟨occurrence, marker⟩ := found
    have step := checkOrDiagnose_mark decls record before occurrence marker
    unfold ofMarkers
    cases h : checkOrDiagnose decls record before occurrence marker with
    | ok check =>
      rw [h] at step
      obtain ⟨rejected, reported, perm⟩ := ih (before ++ [check])
      refine ⟨rejected, reported, perm.trans ?_⟩
      rw [List.map_append, List.map_singleton, step, List.append_assoc]
      rfl
    | error d =>
      rw [h] at step
      obtain ⟨rejected, reported, perm⟩ := ih before
      refine ⟨markOf record (occurrence, marker) :: rejected, List.Forall₂.cons step reported, ?_⟩
      exact List.perm_middle.trans ((perm.cons _).trans List.perm_middle.symm)

/-- Every occurrence is malformed or can be read, and the malformed ones are reported. -/
theorem malformed_accounts (decl : TypeDecl) :
    ∃ rejected, Reported (malformed decl) rejected ∧
      (rejected ++ (wellFormed decl).map (markOf decl.name)).Perm (inRecord decl) := by
  rw [inRecord_eq]
  unfold malformed wellFormed
  induction Occurrence.inRecord decl with
  | nil => exact ⟨[], List.Forall₂.nil, List.Perm.refl _⟩
  | cons occurrence occurrences ih =>
    obtain ⟨rejected, reported, perm⟩ := ih
    obtain ⟨path, guards, type, reading⟩ := occurrence
    cases reading with
    | ok marker => exact ⟨rejected, reported, List.perm_middle.trans (perm.cons _)⟩
    | error bad =>
      exact ⟨⟨decl.name, path, bad.position⟩ :: rejected,
        List.Forall₂.cons ⟨rfl, rfl, rfl⟩ reported, perm.cons _⟩

/-- A record's marks part into the checks of its plan and its diagnostics. -/
theorem ofRecord_accounts (decls : List TypeDecl) (decl : TypeDecl) :
    ∃ rejected, Reported (ofRecord decls decl).2 rejected ∧
      (ofChecks (ofRecord decls decl).1.toList ++ rejected).Perm (inRecord decl) := by
  obtain ⟨bad, badReported, badPerm⟩ := malformed_accounts decl
  obtain ⟨rejected, reported, perm⟩ := ofMarkers_accounts decls decl.name [] (wellFormed decl)
  have checks : ofChecks (ofRecord decls decl).1.toList =
      (ofMarkers decls decl.name [] (wellFormed decl)).1.map (ofCheck decl.name) := by
    unfold ofRecord
    cases h : (ofMarkers decls decl.name [] (wellFormed decl)).1 with
    | nil => simp [h, ofChecks]
    | cons check checks => simp [h, ofChecks]
  refine ⟨bad ++ rejected, List.rel_append badReported reported, ?_⟩
  rw [checks]
  exact (List.perm_append_comm_assoc _ _ _).trans ((perm.append_left bad).trans badPerm)

/-! ### Settling -/

/-- The checks of one plan part into those that can be made and those that are dropped. -/
theorem settleChecks_accounts (kept : List String) (record : String) (checks : List Check) :
    ∃ lost, Reported ((checks.filter (isLost kept)).map (dropped record)) lost ∧
      ((checks.filterMap (settleCheck kept)).map (ofCheck record) ++ lost).Perm
        (checks.map (ofCheck record)) := by
  induction checks with
  | nil => exact ⟨[], List.Forall₂.nil, List.Perm.refl _⟩
  | cons check checks ih =>
    obtain ⟨lost, reported, perm⟩ := ih
    cases hs : settleCheck kept check with
    | none =>
      have hlost : isLost kept check = true := by rw [← settleCheck_isNone, hs]; rfl
      rw [List.filter_cons_of_pos hlost, List.filterMap_cons_none hs]
      refine ⟨ofCheck record check :: lost, List.Forall₂.cons ⟨rfl, rfl, rfl⟩ reported, ?_⟩
      exact List.perm_middle.trans (perm.cons _)
    | some settled =>
      have hkept : isLost kept check = false := by rw [← settleCheck_isNone, hs]; rfl
      have same : ofCheck record settled = ofCheck record check := by
        rw [(settleCheck_some hs).1]
        rfl
      rw [List.filter_cons_of_neg (by simp [hkept]), List.filterMap_cons_some hs, List.map_cons,
        same]
      exact ⟨lost, reported, perm.cons _⟩

theorem trim_accounts (kept : List String) (plans : List Plan) :
    ∃ lost, Reported (lossesFrom kept plans) lost ∧
      (ofChecks (trim kept plans) ++ lost).Perm (ofChecks plans) := by
  induction plans with
  | nil => exact ⟨[], List.Forall₂.nil, List.Perm.refl _⟩
  | cons plan plans ih =>
    obtain ⟨rest, restReported, restPerm⟩ := ih
    obtain ⟨lost, reported, perm⟩ := settleChecks_accounts kept plan.record plan.checks
    have head : ofChecks
        (if (settleChecks kept plan).checks = [] then [] else [settleChecks kept plan]) =
        (plan.checks.filterMap (settleCheck kept)).map (ofCheck plan.record) := by
      split
      · next h =>
        have none : plan.checks.filterMap (settleCheck kept) = [] := h
        rw [none]
        rfl
      · exact List.append_nil _
    refine ⟨lost ++ rest, List.rel_append reported restReported, ?_⟩
    rw [trim_cons]
    unfold ofChecks at head restPerm ⊢
    rw [List.flatMap_append, head, List.flatMap_cons]
    refine List.Perm.trans ?_ (perm.append restPerm)
    rw [List.append_assoc, List.append_assoc]
    exact (List.perm_append_comm_assoc _ _ _).append_left _

/-- All rounds together turn checks into diagnostics and lose none. -/
theorem Settles.accounts {plans left : List Plan} {ds : List Diagnostic}
    (h : Settles plans left ds) :
    ∃ lost, Reported ds lost ∧ (ofChecks left ++ lost).Perm (ofChecks plans) := by
  induction h with
  | @last plans hds =>
    obtain ⟨lost, reported, perm⟩ := trim_accounts (names plans) plans
    rw [← settleRound_snd, hds] at reported
    exact ⟨lost, reported, perm⟩
  | @more plans left ds _ _ ih =>
    obtain ⟨later, laterReported, laterPerm⟩ := ih
    obtain ⟨lost, reported, perm⟩ := trim_accounts (names plans) plans
    rw [← settleRound_snd] at reported
    refine ⟨lost ++ later, List.rel_append reported laterReported, ?_⟩
    refine List.Perm.trans ?_ ((laterPerm.append_right lost).trans perm)
    rw [List.append_assoc]
    exact List.perm_append_comm.append_left _

/-! ### Files -/

theorem initial_accounts (file : SourceFile) :
    ∃ rejected, Reported (initialDiagnostics file) rejected ∧
      (ofChecks (initial file) ++ rejected).Perm (inFile file) := by
  unfold initialDiagnostics initial inFile
  induction file.decls.filter (·.isRecord) with
  | nil => exact ⟨[], List.Forall₂.nil, List.Perm.refl _⟩
  | cons decl decls ih =>
    obtain ⟨rest, restReported, restPerm⟩ := ih
    obtain ⟨rejected, reported, perm⟩ := ofRecord_accounts file.decls decl
    refine ⟨rejected ++ rest, List.rel_append reported restReported, ?_⟩
    have checks : ofChecks ((decl :: decls).filterMap fun decl => (ofRecord file.decls decl).1) =
        ofChecks (ofRecord file.decls decl).1.toList ++
          ofChecks (decls.filterMap fun decl => (ofRecord file.decls decl).1) := by
      cases h : (ofRecord file.decls decl).1 <;> simp [ofChecks, h]
    rw [checks, List.flatMap_cons]
    refine List.Perm.trans ?_ (perm.append restPerm)
    rw [List.append_assoc, List.append_assoc]
    exact (List.perm_append_comm_assoc _ _ _).append_left _

theorem ofFile_accounts {file : SourceFile} (distinct : DistinctRecords file) :
    ∃ rejected, Reported (ofFile file).2 rejected ∧
      (ofChecks (ofFile file).1 ++ rejected).Perm (inFile file) := by
  obtain ⟨rejected, reported, perm⟩ := initial_accounts file
  obtain ⟨lost, lostReported, lostPerm⟩ := (settle_settles (initial file)).accounts
  rw [ofFile_eq distinct]
  refine ⟨rejected ++ lost, List.rel_append reported lostReported, ?_⟩
  refine List.Perm.trans ?_ ((lostPerm.append_right rejected).trans perm)
  rw [List.append_assoc]
  exact List.perm_append_comm.append_left _

end Plan

namespace CompiledUnit

/-- A file that can be parsed compiles where its records have different names.  Its marks part into
the checks of all plans and the marks that the diagnostics are about, one each, and the diagnostics
stand in reading order. -/
theorem compile_accounts (options : Emission.Options) (sourceName source : String)
    {file : SourceFile} (parsed : SourceFile.parse source.toList = .ok file)
    (distinct : Plan.DistinctRecords file) :
    ∃ unit, compile options sourceName source = .ok unit ∧
      (∃ rejected, Mark.Reported unit.diagnostics rejected ∧
        (Mark.inFile file).Perm (Mark.ofChecks unit.plans ++ rejected)) ∧
      unit.diagnostics.Pairwise fun a b => a.position.le b.position = true := by
  have compiled : compile options sourceName source = .ok (ofFile options sourceName file) := by
    unfold compile
    rw [parsed]
    rfl
  obtain ⟨rejected, reported, perm⟩ := Plan.ofFile_accounts distinct
  obtain ⟨sorted, sortedReported, sortedPerm⟩ :=
    List.perm_comp_forall₂ (Diagnostic.sort_perm (Plan.ofFile file).2) reported
  refine ⟨_, compiled, ⟨sorted, sortedReported, ?_⟩, Diagnostic.pairwise_sort _⟩
  exact (perm.symm.trans (sortedPerm.symm.append_left _))

/-- A source in which markers are rejected at every stage.  `C` has no plan, so `B` loses its only
check, and a round later `A` loses the one that requires `B`. -/
def rejections : String :=
  "package p
  type A struct \x7b
    // +govalid:required
    // +govalid:nope
    X, Y string
    N *struct \x7b
      // +govalid:min=1
      // +govalid:gte=2
      // +govalid:=
      Z int
    \x7d
    // +govalid:required
    B B
  \x7d
  type B struct \x7b
    // +govalid:required
    C C
  \x7d
  type C struct \x7b
    F func()
  \x7d
  "

set_option maxRecDepth 4000 in
theorem compile_accounts_rejections :
    ∃ file, SourceFile.parse rejections.toList = .ok file ∧ Plan.DistinctRecords file ∧
      (Mark.inFile file).length = 9 ∧
      ∃ unit, compile .default "a.go" rejections = .ok unit ∧
        (∃ rejected, Mark.Reported unit.diagnostics rejected ∧
          (Mark.inFile file).Perm (Mark.ofChecks unit.plans ++ rejected)) ∧
        unit.diagnostics.Pairwise fun a b => a.position.le b.position = true := by
  obtain ⟨file, parsed, facts⟩ := exists_parse (rfl : rejections = _)
    (p := fun file => decide (Plan.DistinctRecords file) && (Mark.inFile file).length == 9)
    (by decide +kernel)
  rw [Bool.and_eq_true, decide_eq_true_iff, beq_iff_eq] at facts
  exact ⟨file, parsed, facts.1, facts.2, compile_accounts .default "a.go" rejections parsed facts.1⟩

end CompiledUnit

end FieldRules
