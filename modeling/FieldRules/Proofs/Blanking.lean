/-
A rejected marker has no influence on anything else.

Blanking empties the marker lines at some places.  When these are the places of
all diagnostics of a file, the blanked file compiles without any, to the same
plans and the same code (`compile_blank`).  The readings of the other lines stay
(`ofDoc_blank`), a marker that was rejected had no part in judging another
(`ofMarkers_filter`), and no line that is blanked had a check in any plan that was
left (`stays_iff`).  So the plans before settling hold exactly the checks that
settling had left, and one round confirms them (`settle_blank`).
-/
import FieldRules.Proofs.Authority
import FieldRules.Proofs.Docs
import FieldRules.Proofs.Independence

namespace FieldRules

open Go Text

/-! ### Lines and docs -/

namespace Marker

variable (bad : List Position)

/-- Empties a marker line at one of some places. -/
def blankLine (comment : Position) (index : Nat) (line : List Char) : List Char :=
  if isMarkerLine index line && bad.contains (placeOnLine comment index line) then [] else line

def blankLines (comment : Position) : Nat → List (List Char) → List (List Char)
  | _, [] => []
  | index, line :: lines => blankLine bad comment index line :: blankLines comment (index + 1) lines

/-- A comment without the marker lines at some places; it keeps its place and its lines. -/
def blankComment (comment : Comment) : Comment :=
  ⟨String.ofList (joinWith '\n' (blankLines bad comment.position 0
    (splitAt (· == '\n') comment.text.toList))), comment.position⟩

def blankDoc (doc : List Comment) : List Comment := doc.map (blankComment bad)

/-- Whether the place of a reading is not among some. -/
def isElsewhere (reading : Except Malformed Marker) : Bool := !bad.contains (placeOf reading)

theorem onLine?_nil (comment : Position) (index : Nat) : onLine? comment index [] = none := by
  unfold onLine? lineBody
  split <;> rfl

theorem onLine?_place {comment : Position} {index : Nat} {line : List Char}
    {reading : Except Malformed Marker} (h : onLine? comment index line = some reading) :
    isMarkerLine index line = true ∧ placeOf reading = placeOnLine comment index line := by
  have places := onLine?_map comment index line
  rw [h] at places
  split at places
  · next hline => exact ⟨hline, Option.some.inj places⟩
  · cases places

theorem onLine?_blankLine (comment : Position) (index : Nat) (line : List Char) :
    onLine? comment index (blankLine bad comment index line) =
      (onLine? comment index line).filter (isElsewhere bad) := by
  unfold blankLine
  cases h : onLine? comment index line with
  | none =>
    split
    · exact onLine?_nil comment index
    · exact h
  | some reading =>
    obtain ⟨hline, hplace⟩ := onLine?_place h
    unfold isElsewhere
    rw [Option.filter_some, hplace, hline, Bool.true_and]
    cases bad.contains (placeOnLine comment index line) with
    | true => exact onLine?_nil comment index
    | false => exact h

theorem onLines_blankLines (comment : Position) (index : Nat) (lines : List (List Char)) :
    onLines comment index (blankLines bad comment index lines) =
      (onLines comment index lines).filter (isElsewhere bad) := by
  induction lines generalizing index with
  | nil => rfl
  | cons line lines ih =>
    rw [blankLines, onLines, onLines, List.filter_append, ih, onLine?_blankLine]
    congr 1
    cases onLine? comment index line with
    | none => rfl
    | some reading => by_cases h : isElsewhere bad reading = true <;> simp [h]

theorem blankLines_ne_nil {comment : Position} {index : Nat} {lines : List (List Char)}
    (h : lines ≠ []) : blankLines bad comment index lines ≠ [] := by
  cases lines with
  | nil => exact absurd rfl h
  | cons line lines => exact List.cons_ne_nil _ _

theorem not_mem_blankLines {comment : Position} {index : Nat} {lines : List (List Char)} {c : Char}
    (h : ∀ line ∈ lines, c ∉ line) : ∀ line ∈ blankLines bad comment index lines, c ∉ line := by
  induction lines generalizing index with
  | nil => exact fun line hline => nomatch hline
  | cons first lines ih =>
    intro line hline
    rcases List.mem_cons.1 hline with rfl | hline
    · unfold blankLine
      split
      · exact List.not_mem_nil
      · exact h first List.mem_cons_self
    · exact ih (fun l hl => h l (List.mem_cons_of_mem _ hl)) line hline

/-- Of a blanked doc the readings at other places are left. -/
theorem ofDoc_blank (doc : List Comment) :
    ofDoc (blankDoc bad doc) = (ofDoc doc).filter (isElsewhere bad) := by
  unfold ofDoc blankDoc
  rw [List.flatMap_map, List.filter_flatMap]
  refine List.flatMap_congr fun comment _ => ?_
  have nonempty :
      blankLines bad comment.position 0 (splitAt (· == '\n') comment.text.toList) ≠ [] :=
    blankLines_ne_nil bad (splitAt_ne_nil _ _)
  have lines := splitAt_joinWith nonempty
    (not_mem_blankLines bad fun line hline => not_mem_of_mem_splitAt hline)
  unfold ofComment blankComment
  simp only [String.toList_ofList, lines]
  exact onLines_blankLines bad comment.position 0 _

end Marker

/-- A file without the marker lines at some places. -/
def Go.SourceFile.blank (bad : List Position) (file : SourceFile) : SourceFile :=
  file.mapDocs (Marker.blankDoc bad)

namespace Plan

/-! ### Judging the other markers -/

/-- Whether a check does not come from one of some places. -/
def stays (bad : List Position) (check : Check) : Bool := !bad.contains check.position

theorem isTaken_sublist {few many : List Check} (sub : few ⊆ many) {check : Check}
    (free : isTaken many check = false) : isTaken few check = false := by
  unfold isTaken at *
  rw [List.any_eq_false] at *
  exact fun other hother => free other (sub hother)

/-- Where every rejected marker is left out, and others may be, those that are left are accepted. -/
theorem ofMarkers_filter {decls : List TypeDecl} {record : String} {bad : List Position}
    {before : List Check} {markers : List (Occurrence × Marker)}
    (reported : ∀ d ∈ (ofMarkers decls record before markers).2, d.position ∈ bad) :
    ofMarkers decls record (before.filter (stays bad))
        (markers.filter fun found => !bad.contains found.2.position) =
      ((ofMarkers decls record before markers).1.filter (stays bad), []) := by
  induction markers generalizing before with
  | nil => rfl
  | cons found markers ih =>
    obtain ⟨occurrence, marker⟩ := found
    rw [ofMarkers] at reported ⊢
    cases hstep : checkOrDiagnose decls record before occurrence marker with
    | ok check =>
      rw [hstep] at reported
      obtain ⟨hcheck, free⟩ := checkOrDiagnose_ok hstep
      have hposition : check.position = marker.position := (checkOf_ok hcheck).2.2.2.2.1
      have rest := ih reported
      rw [List.filter_append] at rest
      by_cases blanked : marker.position ∈ bad
      · have gone : [check].filter (stays bad) = [] := by simp [stays, hposition, blanked]
        rw [gone, List.append_nil] at rest
        rw [List.filter_cons_of_neg (by simpa using blanked)]
        exact rest
      · have kept : [check].filter (stays bad) = [check] := by simp [stays, hposition, blanked]
        have again : checkOrDiagnose decls record (before.filter (stays bad)) occurrence marker =
            .ok check := by
          unfold checkOrDiagnose
          rw [hcheck]
          simp [isTaken_sublist (List.filter_subset_self _) free]
        rw [kept] at rest
        rw [List.filter_cons_of_pos (by simpa using blanked), ofMarkers, again]
        exact rest
    | error d =>
      rw [hstep] at reported
      have step := checkOrDiagnose_mark decls record before occurrence marker
      rw [hstep] at step
      have hposition : d.position = marker.position := step.2.2
      have hbad := reported d List.mem_cons_self
      rw [hposition] at hbad
      rw [List.filter_cons_of_neg (by simpa using hbad)]
      exact ih fun d hd => reported d (List.mem_cons_of_mem _ hd)

/-- An occurrence in a record with other comments. -/
def retype (f : List Comment → List Comment) (found : Occurrence × Marker) : Occurrence × Marker :=
  ({ found.1 with type := found.1.type.mapDocs f }, found.2)

/-- Comments inside types do not count. -/
theorem ofMarkers_retype (f : List Comment → List Comment) (decls : List TypeDecl) (record : String)
    (before : List Check) (markers : List (Occurrence × Marker)) :
    ofMarkers (decls.map (TypeDecl.mapDocs f)) record before (markers.map (retype f)) =
      ofMarkers decls record before markers := by
  induction markers generalizing before with
  | nil => rfl
  | cons found markers ih =>
    obtain ⟨occurrence, marker⟩ := found
    have same : checkOf (decls.map (TypeDecl.mapDocs f))
        { occurrence with type := occurrence.type.mapDocs f } marker =
        checkOf decls occurrence marker := by
      unfold checkOf
      simp only [Kind.ofType_mapDocs, TypeExpr.mapDocs_render]
    have step : checkOrDiagnose (decls.map (TypeDecl.mapDocs f)) record before
        { occurrence with type := occurrence.type.mapDocs f } marker =
        checkOrDiagnose decls record before occurrence marker := by
      unfold checkOrDiagnose
      rw [same]
    rw [List.map_cons, ofMarkers, ofMarkers]
    unfold retype
    simp only [step]
    cases checkOrDiagnose decls record before occurrence marker with
    | ok check => exact ih (before ++ [check])
    | error d =>
      rw [← ih before]
      rfl

/-! ### Blanked records -/

theorem markers_blank (bad : List Position) (site : Site) :
    (site.mapDocs (Marker.blankDoc bad)).markers =
      (site.markers.filter fun found => !bad.contains found.2.position).map
        (retype (Marker.blankDoc bad)) := by
  unfold Site.markers Site.mapDocs
  simp only [Marker.ofDoc_blank]
  induction Marker.ofDoc site.doc with
  | nil => rfl
  | cons reading readings ih =>
    cases reading with
    | error fault =>
      by_cases h : Marker.isElsewhere bad (.error fault) = true
      · simpa [List.filter_cons_of_pos h] using ih
      · simpa [List.filter_cons_of_neg h] using ih
    | ok marker =>
      by_cases h : Marker.isElsewhere bad (.ok marker) = true
      · have kept : (!bad.contains marker.position) = true := h
        rw [List.filter_cons_of_pos h]
        simp only [List.filterMap_cons]
        rw [List.filter_cons_of_pos (by exact kept), List.map_cons, ih]
        rfl
      · have gone : ¬(!bad.contains marker.position) = true := h
        rw [List.filter_cons_of_neg h]
        simp only [List.filterMap_cons]
        rw [List.filter_cons_of_neg (by exact gone)]
        exact ih

theorem wellFormed_blank (bad : List Position) (decl : TypeDecl) :
    wellFormed (decl.mapDocs (Marker.blankDoc bad)) =
      ((wellFormed decl).filter fun found => !bad.contains found.2.position).map
        (retype (Marker.blankDoc bad)) := by
  rw [Site.wellFormed_eq, Site.wellFormed_eq, Site.inRecord_mapDocs, List.flatMap_map,
    List.filter_flatMap, List.map_flatMap]
  exact List.flatMap_congr fun site _ => markers_blank bad site

/-- With all malformed markers blanked there are none left. -/
theorem malformed_blank {bad : List Position} {decl : TypeDecl}
    (reported : ∀ d ∈ malformed decl, d.position ∈ bad) :
    malformed (decl.mapDocs (Marker.blankDoc bad)) = [] := by
  rw [Site.malformed_eq] at reported ⊢
  rw [Site.inRecord_mapDocs, List.flatMap_map, List.flatMap_eq_nil_iff]
  intro site hsite
  unfold Site.malformed Site.mapDocs
  simp only [Marker.ofDoc_blank, List.filterMap_eq_nil_iff]
  intro reading hreading
  obtain ⟨hmem, elsewhere⟩ := List.mem_filter.1 hreading
  cases reading with
  | ok marker => rfl
  | error fault =>
    have found : (Rejection.malformed fault.fault).diagnostic decl.name site.path none
        fault.position ∈ Site.malformed decl.name site := List.mem_filterMap.2 ⟨_, hmem, rfl⟩
    have hbad : fault.position ∈ bad := reported _ (List.mem_flatMap.2 ⟨site, hsite, found⟩)
    unfold Marker.isElsewhere at elsewhere
    simp [Marker.placeOf, hbad] at elsewhere

def leaveOut (bad : List Position) (plan : Plan) : Plan :=
  { plan with checks := plan.checks.filter (stays bad) }

/-- A record whose rejected markers are blanked has the plan without the checks that are blanked and
no diagnostics. -/
theorem ofRecord_blank {file : SourceFile} {bad : List Position} {decl : TypeDecl}
    (reported : ∀ d ∈ (ofRecord file.decls decl).2, d.position ∈ bad) :
    ofRecord (file.blank bad).decls (decl.mapDocs (Marker.blankDoc bad)) =
      ((ofRecord file.decls decl).1.bind fun plan =>
        if (leaveOut bad plan).checks = [] then none else some (leaveOut bad plan), []) := by
  have split : (ofRecord file.decls decl).2 = malformed decl ++
    (ofMarkers file.decls decl.name [] (wellFormed decl)).2 := rfl
  rw [split] at reported
  have checks : ofMarkers (file.blank bad).decls decl.name []
      (wellFormed (decl.mapDocs (Marker.blankDoc bad))) =
      ((ofMarkers file.decls decl.name [] (wellFormed decl)).1.filter (stays bad), []) := by
    rw [wellFormed_blank]
    refine (ofMarkers_retype _ _ _ _ _).trans ?_
    have found : ∀ d ∈ (ofMarkers file.decls decl.name [] (wellFormed decl)).2, d.position ∈ bad :=
      fun d hd => reported d (List.mem_append_right _ hd)
    exact ofMarkers_filter found
  have name : (decl.mapDocs (Marker.blankDoc bad)).name = decl.name := rfl
  have position : (decl.mapDocs (Marker.blankDoc bad)).position = decl.position := rfl
  unfold ofRecord
  rw [name, position, checks, malformed_blank fun d hd => reported d (List.mem_append_left _ hd)]
  generalize ofMarkers file.decls decl.name [] (wellFormed decl) = found
  obtain ⟨made, ds⟩ := found
  cases made with
  | nil => rfl
  | cons check more => simp [leaveOut]

theorem initial_blank {file : SourceFile} {bad : List Position}
    (reported : ∀ d ∈ initialDiagnostics file, d.position ∈ bad) :
    initial (file.blank bad) =
        ((initial file).map (leaveOut bad)).filter (fun plan => !plan.checks.isEmpty) ∧
      initialDiagnostics (file.blank bad) = [] := by
  unfold initial initialDiagnostics at *
  rw [show (file.blank bad).decls.filter (·.isRecord) = _ from file.mapDocs_records _]
  generalize file.decls.filter (·.isRecord) = records at reported ⊢
  induction records with
  | nil => exact ⟨rfl, rfl⟩
  | cons decl decls ih =>
    rw [List.flatMap_cons] at reported
    have here := ofRecord_blank fun d hd => reported d (List.mem_append_left _ hd)
    obtain ⟨plans, none⟩ := ih fun d hd => reported d (List.mem_append_right _ hd)
    refine ⟨?_, by rw [List.map_cons, List.flatMap_cons, here, none]; rfl⟩
    cases hplan : (ofRecord file.decls decl).1 with
    | none => simp [here, hplan, plans]
    | some plan =>
      by_cases empty : (leaveOut bad plan).checks = [] <;> simp [here, hplan, plans, empty]

/-! ### Settling what is left -/

/-- Where nothing is lost one round is enough. -/
theorem settle_of_no_losses {plans : List Plan} (h : lossesFrom (names plans) plans = []) :
    settle plans = (trim (names plans) plans, []) := by
  rw [← settleRound_snd] at h
  unfold settle
  rw [settleRounds, ← settleRound_fst]
  simp [h]

/-- Plans from which exactly the checks are left out that cannot be made settle to the same. -/
theorem trim_leaveOut {bad : List Position} {kept : List String} {plans : List Plan}
    (out : ∀ plan ∈ plans, ∀ check ∈ plan.checks, stays bad check = !isLost kept check) :
    names ((plans.map (leaveOut bad)).filter fun plan => !plan.checks.isEmpty) =
        names (trim kept plans) ∧
      trim kept ((plans.map (leaveOut bad)).filter fun plan => !plan.checks.isEmpty) =
        trim kept plans ∧
      lossesFrom kept ((plans.map (leaveOut bad)).filter fun plan => !plan.checks.isEmpty) =
        [] := by
  induction plans with
  | nil => exact ⟨rfl, rfl, rfl⟩
  | cons plan plans ih =>
    have here := out plan List.mem_cons_self
    obtain ⟨sameNames, sameTrim, noLosses⟩ :=
      ih fun other hother => out other (List.mem_cons_of_mem _ hother)
    have settled : settleChecks kept (leaveOut bad plan) = settleChecks kept plan := by
      unfold settleChecks leaveOut
      simp only [Plan.mk.injEq, true_and, List.filterMap_filter]
      refine List.filterMap_congr fun check hcheck => ?_
      rw [here check hcheck, ← settleCheck_isNone]
      cases settleCheck kept check <;> rfl
    have none : (leaveOut bad plan).checks.filter (isLost kept) = [] := by
      rw [List.filter_eq_nil_iff]
      intro check hcheck
      obtain ⟨hmem, hstays⟩ := List.mem_filter.1 hcheck
      rw [here check hmem] at hstays
      simpa using hstays
    have empty : (leaveOut bad plan).checks = [] ↔ (settleChecks kept plan).checks = [] := by
      refine not_iff_not.1 (Iff.trans ?_ (settleChecks_ne_nil_iff kept plan).symm)
      constructor
      · intro hne
        obtain ⟨check, hcheck⟩ := List.exists_mem_of_ne_nil _ hne
        obtain ⟨hmem, hstays⟩ := List.mem_filter.1 hcheck
        exact ⟨check, hmem, by simpa [here check hmem] using hstays⟩
      · rintro ⟨check, hcheck, hkept⟩
        exact List.ne_nil_of_mem (List.mem_filter.2 ⟨hcheck, by simp [here check hcheck, hkept]⟩)
    rw [trim_cons, List.map_cons]
    by_cases h : (leaveOut bad plan).checks = []
    · rw [List.filter_cons_of_neg (by simpa using h), if_pos (empty.1 h), List.nil_append]
      exact ⟨sameNames, sameTrim, noLosses⟩
    · rw [List.filter_cons_of_pos (by simpa using h), if_neg (mt empty.2 h), trim_cons, settled,
        if_neg (mt empty.2 h), sameTrim]
      refine ⟨congrArg (plan.record :: ·) sameNames, rfl, ?_⟩
      unfold lossesFrom at *
      rw [List.flatMap_cons, none, noLosses]
      rfl

variable {file : SourceFile}

/-- The places of all diagnostics of a file, in any order. -/
def AreReported (file : SourceFile) (bad : List Position) : Prop :=
  ∀ place, place ∈ bad ↔ ∃ d ∈ (ofFile file).2, d.position = place

/-- A check stays exactly when settling keeps it: no line that is blanked has a check in a plan that
was left. -/
theorem stays_iff (fields : file.hasDistinctFields = true)
    (places : (file.nodes.flatMap Node.places).Nodup) (distinct : DistinctRecords file)
    {bad : List Position} (reported : AreReported file bad) {plan : Plan}
    (hplan : plan ∈ initial file) {check : Check} (hcheck : check ∈ plan.checks) :
    stays bad check = !isLost (names (settle (initial file)).1) check := by
  have losses := (settle_settles (initial file)).losses_perm (initial_nonempty file)
  unfold AreReported at reported
  rw [ofFile_eq distinct] at reported
  unfold stays
  refine congrArg not ?_
  rw [Bool.eq_iff_iff, List.contains_iff_mem, reported]
  constructor
  · rintro ⟨d, hd, same⟩
    refine isLost_of_reported fields places hplan hcheck ?_ same
    rcases List.mem_append.1 hd with hd | hd
    · exact List.mem_append_left _ hd
    · exact List.mem_append_right _ (losses.mem_iff.1 hd)
  · intro lost
    refine ⟨dropped plan.record check, List.mem_append_right _ (losses.mem_iff.2 ?_), rfl⟩
    exact List.mem_flatMap.2 ⟨plan, hplan, List.mem_map_of_mem (List.mem_filter.2 ⟨hcheck, lost⟩)⟩

/-- Settling the blanked file leaves the same plans and drops nothing. -/
theorem settle_blank (fields : file.hasDistinctFields = true)
    (places : (file.nodes.flatMap Node.places).Nodup) (distinct : DistinctRecords file)
    {bad : List Position} (reported : AreReported file bad) :
    settle (initial (file.blank bad)) = ((settle (initial file)).1, []) := by
  have before : ∀ d ∈ initialDiagnostics file, d.position ∈ bad := fun d hd =>
    (reported d.position).2 ⟨d, by rw [ofFile_eq distinct]; exact List.mem_append_left _ hd, rfl⟩
  have left := (settle_settles (initial file)).eq_trim (initial_nonempty file)
  obtain ⟨sameNames, sameTrim, noLosses⟩ := trim_leaveOut fun plan hplan check hcheck =>
    stays_iff fields places distinct reported hplan hcheck
  rw [← left] at sameNames sameTrim
  rw [← sameNames] at noLosses sameTrim
  rw [(initial_blank before).1, settle_of_no_losses noLosses, sameTrim]

theorem distinctRecords_blank {bad : List Position} (distinct : DistinctRecords file) :
    DistinctRecords (file.blank bad) := by
  unfold DistinctRecords
  rw [show (file.blank bad).decls.filter (·.isRecord) = _ from file.mapDocs_records _, List.map_map]
  exact distinct

/-- The blanked file has the same plans and no diagnostics. -/
theorem ofFile_blank (fields : file.hasDistinctFields = true)
    (places : (file.nodes.flatMap Node.places).Nodup) (distinct : DistinctRecords file)
    {bad : List Position} (reported : AreReported file bad) :
    ofFile (file.blank bad) = ((ofFile file).1, []) := by
  have before : ∀ d ∈ initialDiagnostics file, d.position ∈ bad := fun d hd =>
    (reported d.position).2 ⟨d, by rw [ofFile_eq distinct]; exact List.mem_append_left _ hd, rfl⟩
  rw [ofFile_eq (distinctRecords_blank distinct), settle_blank fields places distinct reported,
    (initial_blank before).2, ofFile_eq distinct]
  rfl

end Plan

namespace CompiledUnit

/-- When every marker line that a diagnostic is about is blanked, the file compiles without
diagnostics, to the same plans and the same code, of which every part is authoritative. -/
theorem compile_blank (options : Emission.Options) (sourceName source : String) {file : SourceFile}
    (parsed : SourceFile.parse source.toList = .ok file) (distinct : Plan.DistinctRecords file)
    (fields : file.hasDistinctFields = true) :
    ∃ unit, compile options sourceName source = .ok unit ∧
      ofFile options sourceName (file.blank (unit.diagnostics.map (·.position))) =
        { unit with
          diagnostics := []
          artifacts := unit.artifacts.map fun artifact =>
            { artifact with authoritative := true } } := by
  have compiled : compile options sourceName source = .ok (ofFile options sourceName file) := by
    unfold compile
    rw [parsed]
    rfl
  refine ⟨_, compiled, ?_⟩
  have reported : Plan.AreReported file
      ((ofFile options sourceName file).diagnostics.map (·.position)) := by
    intro place
    rw [List.mem_map]
    refine exists_congr fun d => and_congr_left fun _ => ?_
    exact (Diagnostic.sort_perm (Plan.ofFile file).2).mem_iff
  generalize (ofFile options sourceName file).diagnostics.map (·.position) = bad at *
  have plans := Plan.ofFile_blank fields (nodes_places parsed) distinct reported
  have records : ((file.blank bad).decls.filter (·.isRecord)).map (·.name) =
      (file.decls.filter (·.isRecord)).map (·.name) := by
    rw [show (file.blank bad).decls.filter (·.isRecord) = _ from file.mapDocs_records _,
      List.map_map]
    rfl
  have sorted : Diagnostic.sort [] = [] := rfl
  unfold ofFile
  simp only [plans, records, sorted, Plan.unsettled_nil, List.map_map]
  rfl

set_option maxRecDepth 4000 in
theorem compile_blank_rejections :
    ∃ file, SourceFile.parse rejections.toList = .ok file ∧ Plan.DistinctRecords file ∧
      file.hasDistinctFields = true ∧ (Plan.ofFile file).2.length = 6 ∧
      ∃ unit, compile .default "a.go" rejections = .ok unit ∧
        ofFile .default "a.go" (file.blank (unit.diagnostics.map (·.position))) =
          { unit with
            diagnostics := []
            artifacts :=
              unit.artifacts.map fun artifact => { artifact with authoritative := true } } := by
  obtain ⟨file, parsed, facts⟩ := exists_parse (rfl : rejections = _)
    (p := fun file => decide (Plan.DistinctRecords file) && file.hasDistinctFields &&
      (Plan.ofFile file).2.length == 6) (by decide +kernel)
  rw [Bool.and_eq_true, Bool.and_eq_true, decide_eq_true_iff, beq_iff_eq] at facts
  obtain ⟨⟨distinct, fields⟩, count⟩ := facts
  exact ⟨file, parsed, distinct, fields, count,
    compile_blank .default "a.go" rejections parsed distinct fields⟩

end CompiledUnit

end FieldRules
