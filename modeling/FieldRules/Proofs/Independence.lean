/-
The markers of a field are judged by themselves.

Whether a marker becomes a check depends on the type of its field and on the
markers above the same field only: a rule is taken where it was asked for before
under the same path, and with different names of fields no two sites of a record
share a path (`Site.paths_nodup`).  So a record's checks are the checks of its
sites in turn (`Plan.ofMarkers_sites`), and two sites of one field come to the
same, the paths apart (`Site.judged_at`).
-/
import FieldRules.Proofs.Accounting
import FieldRules.Proofs.Places

namespace FieldRules

open Go Text

/-! ### Different names -/

namespace Go
namespace TypeExpr

mutual

/-- Whether in each struct that has markers, or may have, the fields have different names. -/
def hasDistinctFields : TypeExpr → Bool
  | struct fields => decide (fields.flatMap Field.names).Nodup && haveDistinctFields fields
  | pointer target => target.hasDistinctFields
  | _ => true

def hasDistinctFieldsIn : Field → Bool
  | ⟨_, _, type, _, _, _⟩ => type.hasDistinctFields

def haveDistinctFields : List Field → Bool
  | [] => true
  | field :: fields => hasDistinctFieldsIn field && haveDistinctFields fields

end

end TypeExpr
end Go

namespace Site

/-- Whether a site stands below a path, under one of some names. -/
def IsUnder (parent : FieldPath) (names : List String) (site : Site) : Prop :=
  ∃ name ∈ names, ∃ below, site.path.segments = parent.segments ++ name :: below

theorem IsUnder.of_child {parent : FieldPath} {name : String} {names : List String} {site : Site}
    (h : IsUnder (parent.child name) names site) : IsUnder parent [name] site := by
  obtain ⟨other, -, below, hpath⟩ := h
  exact ⟨name, List.mem_singleton_self _, other :: below, by simpa [FieldPath.child] using hpath⟩

theorem IsUnder.mono {parent : FieldPath} {few many : List String} {site : Site}
    (h : IsUnder parent few site) (sub : few ⊆ many) : IsUnder parent many site := by
  obtain ⟨name, hname, below, hpath⟩ := h
  exact ⟨name, sub hname, below, hpath⟩

/-- Below different names there are different paths. -/
theorem IsUnder.path_ne {parent : FieldPath} {ns ms : List String} {a b : Site}
    (ha : IsUnder parent ns a) (hb : IsUnder parent ms b) (apart : ns.Disjoint ms) :
    a.path ≠ b.path := by
  obtain ⟨n, hn, below, hpath⟩ := ha
  obtain ⟨m, hm, deeper, hpath'⟩ := hb
  intro same
  rw [same, hpath', List.append_cancel_left_eq, List.cons.injEq] at hpath
  exact apart hn (hpath.1 ▸ hm)

theorem IsUnder.path_ne_parent {parent : FieldPath} {names : List String} {site : Site}
    (h : IsUnder parent names site) : parent ≠ site.path := by
  obtain ⟨name, _, below, hpath⟩ := h
  intro same
  have lengths := congrArg List.length hpath
  rw [← same, List.length_append, List.length_cons] at lengths
  omega

mutual

theorem inFields_under (parent : FieldPath) (guards : List FieldPath) (fields : List Field) :
    ∀ site ∈ inFields parent guards fields, IsUnder parent (fields.flatMap Field.names) site := by
  match fields with
  | [] => exact fun site h => nomatch h
  | field :: fields =>
    intro site hsite
    rw [List.flatMap_cons]
    rcases List.mem_append.1 hsite with hsite | hsite
    · exact (inField_under parent guards field site hsite).mono (List.subset_append_left _ _)
    · exact (inFields_under parent guards fields site hsite).mono (List.subset_append_right _ _)

theorem inField_under (parent : FieldPath) (guards : List FieldPath) (field : Field) :
    ∀ site ∈ inField parent guards field, IsUnder parent field.names site := by
  match field with
  | ⟨names, _, type, _, doc, _⟩ =>
    intro site hsite
    obtain ⟨name, hname, hsite⟩ := List.mem_flatMap.1 hsite
    rcases List.mem_cons.1 hsite with rfl | hsite
    · exact ⟨name, hname, [], rfl⟩
    · obtain ⟨below, hbelow⟩ := inType_under (parent.child name) guards type site hsite
      exact hbelow.of_child.mono (List.cons_subset.2 ⟨hname, List.nil_subset _⟩)

theorem inType_under (path : FieldPath) (guards : List FieldPath) (type : TypeExpr) :
    ∀ site ∈ inType path guards type, ∃ names, IsUnder path names site := by
  match type with
  | .struct fields => exact fun site h => ⟨_, inFields_under path guards fields site h⟩
  | .pointer (.struct fields) =>
    exact fun site h => ⟨_, inFields_under path (guards ++ [path]) fields site h⟩
  | .named _ | .qualified _ _ | .instantiated _ _ | .slice _ | .array _ _ | .map _ _ | .chan _ _
  | .func _ | .interface _ => exact fun site h => nomatch h
  | .pointer (.named _) | .pointer (.qualified _ _) | .pointer (.instantiated _ _)
  | .pointer (.pointer _) | .pointer (.slice _) | .pointer (.array _ _) | .pointer (.map _ _)
  | .pointer (.chan _ _) | .pointer (.func _) | .pointer (.interface _) =>
    exact fun site h => nomatch h

end

mutual

theorem inFields_paths (parent : FieldPath) (guards : List FieldPath) (fields : List Field)
    (unique : (fields.flatMap Field.names).Nodup)
    (distinct : TypeExpr.haveDistinctFields fields = true) :
    ((inFields parent guards fields).map Site.path).Nodup := by
  match fields with
  | [] => exact List.nodup_nil
  | field :: fields =>
    rw [List.flatMap_cons, List.nodup_append'] at unique
    rw [TypeExpr.haveDistinctFields, Bool.and_eq_true] at distinct
    rw [inFields, List.map_append, List.nodup_append]
    refine ⟨inField_paths parent guards field unique.1 distinct.1,
      inFields_paths parent guards fields unique.2.1 distinct.2, ?_⟩
    intro p hp q hq
    obtain ⟨a, ha, rfl⟩ := List.mem_map.1 hp
    obtain ⟨b, hb, rfl⟩ := List.mem_map.1 hq
    exact (inField_under parent guards field a ha).path_ne
      (inFields_under parent guards fields b hb) unique.2.2

theorem inField_paths (parent : FieldPath) (guards : List FieldPath) (field : Field)
    (unique : field.names.Nodup) (distinct : TypeExpr.hasDistinctFieldsIn field = true) :
    ((inField parent guards field).map Site.path).Nodup := by
  match field with
  | ⟨names, _, type, _, doc, _⟩ =>
    rw [inField, List.map_flatMap, List.nodup_flatMap]
    constructor
    · intro name _
      rw [List.map_cons, List.nodup_cons]
      refine ⟨fun hpath => ?_, inType_paths (parent.child name) guards type distinct⟩
      obtain ⟨site, hsite, hsame⟩ := List.mem_map.1 hpath
      obtain ⟨below, hbelow⟩ := inType_under (parent.child name) guards type site hsite
      exact hbelow.path_ne_parent hsame.symm
    · have under (name : String) : ∀ site ∈ (⟨parent.child name, guards, type, doc⟩ : Site) ::
          inType (parent.child name) guards type, IsUnder parent [name] site := by
        intro site hsite
        rcases List.mem_cons.1 hsite with rfl | hsite
        · exact ⟨name, List.mem_singleton_self _, [], rfl⟩
        · obtain ⟨below, hbelow⟩ := inType_under (parent.child name) guards type site hsite
          exact hbelow.of_child
      refine List.Pairwise.imp (fun {n m} (hne : n ≠ m) => ?_) unique
      intro p hp hq
      obtain ⟨a, ha, rfl⟩ := List.mem_map.1 hp
      obtain ⟨b, hb, hsame⟩ := List.mem_map.1 hq
      exact (under n a ha).path_ne (under m b hb) (by simpa using Ne.symm hne) hsame.symm

theorem inType_paths (path : FieldPath) (guards : List FieldPath) (type : TypeExpr)
    (distinct : type.hasDistinctFields = true) :
    ((inType path guards type).map Site.path).Nodup := by
  match type with
  | .struct fields =>
    rw [TypeExpr.hasDistinctFields, Bool.and_eq_true, decide_eq_true_iff] at distinct
    exact inFields_paths path guards fields distinct.1 distinct.2
  | .pointer (.struct fields) =>
    rw [TypeExpr.hasDistinctFields, TypeExpr.hasDistinctFields, Bool.and_eq_true,
      decide_eq_true_iff] at distinct
    exact inFields_paths path (guards ++ [path]) fields distinct.1 distinct.2
  | .named _ | .qualified _ _ | .instantiated _ _ | .slice _ | .array _ _ | .map _ _ | .chan _ _
  | .func _ | .interface _ => exact List.nodup_nil
  | .pointer (.named _) | .pointer (.qualified _ _) | .pointer (.instantiated _ _)
  | .pointer (.pointer _) | .pointer (.slice _) | .pointer (.array _ _) | .pointer (.map _ _)
  | .pointer (.chan _ _) | .pointer (.func _) | .pointer (.interface _) => exact List.nodup_nil

end

/-- Different sites of a record have different paths. -/
theorem paths_nodup {decl : TypeDecl} (distinct : decl.type.hasDistinctFields = true) :
    ((inRecord decl).map Site.path).Nodup := by
  unfold inRecord
  cases h : decl.recordFields? with
  | none => exact List.nodup_nil
  | some fields =>
    rw [recordFields?_type h, TypeExpr.hasDistinctFields, Bool.and_eq_true,
      decide_eq_true_iff] at distinct
    exact inFields_paths FieldPath.root [] fields distinct.1 distinct.2

/-! ### The field of a site -/

def node (site : Site) : Node := ⟨site.type, site.doc⟩

mutual

theorem inFields_nodes (parent : FieldPath) (guards : List FieldPath) (fields : List Field) :
    ∀ site ∈ inFields parent guards fields, site.node ∈ TypeExpr.nodesOf fields := by
  match fields with
  | [] => exact fun site h => nomatch h
  | field :: fields =>
    intro site hsite
    rcases List.mem_append.1 hsite with hsite | hsite
    · exact List.mem_append_left _ (inField_nodes parent guards field site hsite)
    · exact List.mem_append_right _ (inFields_nodes parent guards fields site hsite)

theorem inField_nodes (parent : FieldPath) (guards : List FieldPath) (field : Field) :
    ∀ site ∈ inField parent guards field, site.node ∈ TypeExpr.nodesIn field := by
  match field with
  | ⟨names, _, type, _, doc, _⟩ =>
    intro site hsite
    obtain ⟨name, _, hsite⟩ := List.mem_flatMap.1 hsite
    rcases List.mem_cons.1 hsite with rfl | hsite
    · exact List.mem_cons_self
    · exact List.mem_cons_of_mem _ (inType_nodes (parent.child name) guards type site hsite)

theorem inType_nodes (path : FieldPath) (guards : List FieldPath) (type : TypeExpr) :
    ∀ site ∈ inType path guards type, site.node ∈ type.nodes := by
  match type with
  | .struct fields => exact inFields_nodes path guards fields
  | .pointer (.struct fields) => exact inFields_nodes path (guards ++ [path]) fields
  | .named _ | .qualified _ _ | .instantiated _ _ | .slice _ | .array _ _ | .map _ _ | .chan _ _
  | .func _ | .interface _ => exact fun site h => nomatch h
  | .pointer (.named _) | .pointer (.qualified _ _) | .pointer (.instantiated _ _)
  | .pointer (.pointer _) | .pointer (.slice _) | .pointer (.array _ _) | .pointer (.map _ _)
  | .pointer (.chan _ _) | .pointer (.func _) | .pointer (.interface _) =>
    exact fun site h => nomatch h

end

theorem node_mem {file : SourceFile} {decl : TypeDecl} (hdecl : decl ∈ file.decls) {site : Site}
    (hsite : site ∈ inRecord decl) : site.node ∈ file.nodes := by
  refine List.mem_flatMap.2 ⟨decl, hdecl, ?_⟩
  unfold inRecord at hsite
  cases h : decl.recordFields? with
  | none => rw [h] at hsite; cases hsite
  | some fields =>
    rw [h] at hsite
    rw [recordFields?_type h]
    exact inFields_nodes FieldPath.root [] fields site hsite

/-! ### The markers of a site -/

/-- The markers above a site that could be read. -/
def markers (site : Site) : List (Occurrence × Marker) :=
  (Marker.ofDoc site.doc).filterMap fun
    | .ok marker => some (⟨site.path, site.guards, site.type, .ok marker⟩, marker)
    | .error _ => none

def malformed (record : String) (site : Site) : List Diagnostic :=
  (Marker.ofDoc site.doc).filterMap fun
    | .ok _ => none
    | .error bad =>
      some ((Rejection.malformed bad.fault).diagnostic record site.path none bad.position)

theorem markers_path {site : Site} {found : Occurrence × Marker} (h : found ∈ site.markers) :
    found.1.path = site.path := by
  obtain ⟨reading, _, hfound⟩ := List.mem_filterMap.1 h
  cases reading with
  | ok marker => cases hfound; rfl
  | error bad => cases hfound

theorem wellFormed_eq (decl : TypeDecl) :
    Plan.wellFormed decl = (inRecord decl).flatMap markers := by
  unfold Plan.wellFormed
  rw [inRecord_occurrences, List.filterMap_flatMap]
  congr 1
  funext site
  unfold occurrences Occurrence.ofName markers
  rw [List.filterMap_map]
  congr 1
  funext reading
  cases reading <;> rfl

theorem malformed_eq (decl : TypeDecl) :
    Plan.malformed decl = (inRecord decl).flatMap (malformed decl.name) := by
  unfold Plan.malformed
  rw [inRecord_occurrences, List.filterMap_flatMap]
  congr 1
  funext site
  unfold occurrences Occurrence.ofName malformed
  rw [List.filterMap_map]
  rfl

/-- The checks and the diagnostics that the markers of a site come to by themselves. -/
def judged (decls : List TypeDecl) (record : String) (site : Site) :
    List Check × List Diagnostic :=
  Plan.ofMarkers decls record [] site.markers

end Site

namespace Plan

variable (decls : List TypeDecl) (record : String)

theorem ofMarkers_append (before : List Check) (markers more : List (Occurrence × Marker)) :
    ofMarkers decls record before (markers ++ more) =
      ((ofMarkers decls record (ofMarkers decls record before markers).1 more).1,
        (ofMarkers decls record before markers).2 ++
          (ofMarkers decls record (ofMarkers decls record before markers).1 more).2) := by
  induction markers generalizing before with
  | nil => rfl
  | cons found markers ih =>
    obtain ⟨occurrence, marker⟩ := found
    rw [List.cons_append, ofMarkers, ofMarkers]
    cases checkOrDiagnose decls record before occurrence marker with
    | ok check => exact ih (before ++ [check])
    | error d => simp only [ih before, List.cons_append]

theorem isTaken_append (before mid : List Check) (check : Check) :
    isTaken (before ++ mid) check = (isTaken before check || isTaken mid check) := List.any_append

theorem isTaken_elsewhere {before : List Check} {check : Check}
    (elsewhere : ∀ other ∈ before, other.path ≠ check.path) : isTaken before check = false := by
  unfold isTaken
  rw [List.any_eq_false]
  intro other hother
  simp [elsewhere other hother]

/-- Checks on other paths change nothing for the markers of one path. -/
theorem ofMarkers_elsewhere {before : List Check} {path : FieldPath}
    (elsewhere : ∀ check ∈ before, check.path ≠ path) (mid : List Check)
    {markers : List (Occurrence × Marker)} (here : ∀ found ∈ markers, found.1.path = path) :
    ofMarkers decls record (before ++ mid) markers =
      (before ++ (ofMarkers decls record mid markers).1,
        (ofMarkers decls record mid markers).2) := by
  induction markers generalizing mid with
  | nil => rfl
  | cons found markers ih =>
    obtain ⟨occurrence, marker⟩ := found
    have rest := fun mid => ih mid fun other hother => here other (List.mem_cons_of_mem _ hother)
    have step : checkOrDiagnose decls record (before ++ mid) occurrence marker =
        checkOrDiagnose decls record mid occurrence marker := by
      unfold checkOrDiagnose
      cases hcheck : checkOf decls occurrence marker with
      | error rejection => rfl
      | ok check =>
        have hpath : check.path = path :=
          (checkOf_ok hcheck).1.trans (here (occurrence, marker) List.mem_cons_self)
        have free : isTaken before check = false := isTaken_elsewhere (hpath ▸ elsewhere)
        simp only [isTaken_append, free, Bool.false_or]
    rw [ofMarkers, ofMarkers, step]
    cases checkOrDiagnose decls record mid occurrence marker with
    | ok check => simp only [List.append_assoc, rest (mid ++ [check])]
    | error d => simp only [rest mid]

theorem ofMarkers_path {path : FieldPath} {markers : List (Occurrence × Marker)}
    (here : ∀ found ∈ markers, found.1.path = path) :
    ∀ check ∈ (ofMarkers decls record [] markers).1, check.path = path := by
  intro check hcheck
  rcases mem_ofMarkers hcheck with hnone | ⟨found, hfound, hfrom⟩
  · cases hnone
  · rw [(checkOf_ok hfrom).1, here found hfound]

/-- What the sites of a record come to is what each comes to by itself. -/
theorem ofMarkers_sites (before : List Check) {sites : List Site}
    (distinct : (sites.map Site.path).Nodup)
    (apart : ∀ check ∈ before, check.path ∉ sites.map Site.path) :
    ofMarkers decls record before (sites.flatMap Site.markers) =
      (before ++ sites.flatMap fun site => (site.judged decls record).1,
        sites.flatMap fun site => (site.judged decls record).2) := by
  induction sites generalizing before with
  | nil => simp [ofMarkers]
  | cons site sites ih =>
    rw [List.map_cons, List.nodup_cons] at distinct
    have alone : ofMarkers decls record before site.markers =
        (before ++ (site.judged decls record).1, (site.judged decls record).2) := by
      have elsewhere : ∀ check ∈ before, check.path ≠ site.path := fun check hcheck hpath =>
        apart check hcheck (by rw [hpath]; exact List.mem_cons_self)
      have frame := ofMarkers_elsewhere decls record elsewhere []
        fun found hfound => Site.markers_path hfound
      rwa [List.append_nil] at frame
    have stillApart : ∀ check ∈ before ++ (site.judged decls record).1,
        check.path ∉ sites.map Site.path := by
      intro check hcheck
      rcases List.mem_append.1 hcheck with hcheck | hcheck
      · exact fun hpath => apart check hcheck (List.mem_cons_of_mem _ hpath)
      · rw [ofMarkers_path decls record (fun found hfound => Site.markers_path hfound) check hcheck]
        exact distinct.1
    rw [List.flatMap_cons, ofMarkers_append, alone]
    simp only
    rw [ih (before ++ (site.judged decls record).1) distinct.2 stillApart]
    simp only [List.flatMap_cons, List.append_assoc]

/-! ### One field at several sites -/

/-- The check that the same marker asks for at another site of its field. -/
def moveTo (site : Site) (check : Check) : Check :=
  { check with path := site.path, guards := site.guards }

variable {decls record}

theorem checkOf_moveTo (decls : List TypeDecl) (site : Site) {occurrence : Occurrence}
    (htype : occurrence.type = site.type) (reading : Except Malformed Marker) (marker : Marker) :
    checkOf decls ⟨site.path, site.guards, site.type, reading⟩ marker =
      (checkOf decls occurrence marker).map (moveTo site) := by
  unfold checkOf
  rw [htype]
  cases Rule.ofSpelling? marker.rule with
  | none => rfl
  | some rule =>
    simp only
    split
    · rfl
    · cases typeArgument rule marker.argument (Kind.ofType decls site.type) <;> rfl

/-- A rule that is taken at one site is taken at the other. -/
theorem isTaken_moveTo (site : Site) {path : FieldPath} {before : List Check} {check : Check}
    (here : ∀ other ∈ before, other.path = path) (hcheck : check.path = path) :
    isTaken (before.map (moveTo site)) (moveTo site check) = isTaken before check := by
  unfold isTaken
  rw [List.any_map, Bool.eq_iff_iff, List.any_eq_true, List.any_eq_true]
  constructor
  · rintro ⟨other, hother, same⟩
    exact ⟨other, hother, by simpa [moveTo, here other hother, hcheck] using same⟩
  · rintro ⟨other, hother, same⟩
    exact ⟨other, hother, by simpa [moveTo, here other hother, hcheck] using same⟩

/-- The markers of a field come to the same at another site of it. -/
theorem ofMarkers_moveTo (other : String) (site : Site) {path : FieldPath}
    {before : List Check} (here : ∀ check ∈ before, check.path = path)
    {markers : List (Occurrence × Marker)}
    (hmarkers : ∀ found ∈ markers, found.1.path = path ∧ found.1.type = site.type) :
    (ofMarkers decls other (before.map (moveTo site))
        (markers.map fun found => (⟨site.path, site.guards, site.type, .ok found.2⟩, found.2))).1 =
      (ofMarkers decls record before markers).1.map (moveTo site) ∧
    (ofMarkers decls other (before.map (moveTo site))
        (markers.map fun found =>
          (⟨site.path, site.guards, site.type, .ok found.2⟩, found.2))).2.map (·.position) =
      (ofMarkers decls record before markers).2.map (·.position) := by
  induction markers generalizing before with
  | nil => exact ⟨rfl, rfl⟩
  | cons found markers ih =>
    obtain ⟨occurrence, marker⟩ := found
    obtain ⟨hpath, htype⟩ := hmarkers (occurrence, marker) List.mem_cons_self
    have rest := fun other hother => hmarkers other (List.mem_cons_of_mem _ hother)
    have moved := checkOf_moveTo decls site htype (.ok marker) marker
    rw [List.map_cons, ofMarkers, ofMarkers]
    unfold checkOrDiagnose
    simp only
    rw [moved]
    cases hcheck : checkOf decls occurrence marker with
    | error rejection =>
      simp only [Except.map, List.map_cons]
      exact ⟨(ih here rest).1, congrArg _ (ih here rest).2⟩
    | ok check =>
      have hcheckPath : check.path = path := (checkOf_ok hcheck).1.trans hpath
      simp only [Except.map, isTaken_moveTo site here hcheckPath]
      by_cases taken : isTaken before check = true
      · simp only [taken, if_true, List.map_cons]
        exact ⟨(ih here rest).1, congrArg _ (ih here rest).2⟩
      · simp only [taken]
        have hereMore : ∀ c ∈ before ++ [check], c.path = path := by
          intro c hc
          rcases List.mem_append.1 hc with hc | hc
          · exact here c hc
          · rw [List.mem_singleton.1 hc, hcheckPath]
        have more := ih hereMore rest
        rw [List.map_append, List.map_singleton] at more
        exact more

end Plan

namespace Site

variable {decls : List TypeDecl} {record other : String}

theorem markers_at {a b : Site} (same : a.node = b.node) :
    b.markers = a.markers.map fun found =>
      (⟨b.path, b.guards, b.type, .ok found.2⟩, found.2) := by
  have hdoc : a.doc = b.doc := congrArg Node.doc same
  unfold markers
  rw [List.map_filterMap, hdoc]
  refine List.filterMap_congr fun reading _ => ?_
  cases reading <;> rfl

theorem malformed_at {a b : Site} (same : a.node = b.node) :
    (malformed other b).map (·.position) = (malformed record a).map (·.position) := by
  have hdoc : a.doc = b.doc := congrArg Node.doc same
  unfold malformed
  rw [List.map_filterMap, List.map_filterMap, hdoc]
  refine List.filterMap_congr fun reading _ => ?_
  cases reading <;> rfl

/-- Two sites of one field come to the same. -/
theorem judged_at {a b : Site} (same : a.node = b.node) :
    (b.judged decls other).1 = (a.judged decls record).1.map (Plan.moveTo b) ∧
      (b.judged decls other).2.map (·.position) = (a.judged decls record).2.map (·.position) := by
  have htype : a.type = b.type := congrArg Node.type same
  have found : ∀ found ∈ a.markers, found.1.path = a.path ∧ found.1.type = b.type := by
    intro found hfound
    refine ⟨markers_path hfound, ?_⟩
    obtain ⟨reading, _, hreading⟩ := List.mem_filterMap.1 hfound
    cases reading with
    | ok marker => cases hreading; exact htype
    | error bad => cases hreading
  unfold judged
  rw [markers_at same]
  have none : ∀ check ∈ ([] : List Check), check.path = a.path := fun check h => nomatch h
  exact Plan.ofMarkers_moveTo other b none found

theorem marks_perm (record : String) (site : Site) :
    (site.markers.map (fun found => found.2.position) ++
      (malformed record site).map (·.position)).Perm site.node.places := by
  have places : site.node.places = (Marker.ofDoc site.doc).map Marker.placeOf :=
    (Marker.ofDoc_places site.doc).symm
  rw [places]
  unfold markers malformed
  induction Marker.ofDoc site.doc with
  | nil => exact List.Perm.refl _
  | cons reading readings ih =>
    cases reading with
    | ok marker => exact ih.cons _
    | error bad => exact List.perm_middle.trans (ih.cons _)

/-- The marker lines above a site part into checks and diagnostics. -/
theorem judged_perm (decls : List TypeDecl) (record : String) (site : Site) :
    ((site.judged decls record).1.map (·.position) ++
      ((site.judged decls record).2.map (·.position) ++
        (malformed record site).map (·.position))).Perm site.node.places := by
  obtain ⟨rejected, reported, perm⟩ := Plan.ofMarkers_accounts decls record [] site.markers
  have rejectedPlaces : (site.judged decls record).2.map (·.position) =
      rejected.map (·.position) := by
    rw [← List.forall₂_eq_eq_eq, List.forall₂_map_left_iff, List.forall₂_map_right_iff]
    exact List.Forall₂.imp (fun d mark h => h.2.2) reported
  have places := perm.map Mark.position
  rw [List.map_append, List.map_map, ← rejectedPlaces, List.map_nil, List.nil_append,
    List.map_map] at places
  rw [← List.append_assoc]
  exact (places.append_right _).trans (marks_perm record site)

end Site

namespace Go

/-- Whether in each struct with markers the fields have different names. -/
def SourceFile.hasDistinctFields (file : SourceFile) : Bool :=
  file.decls.all (·.type.hasDistinctFields)

end Go

namespace Plan

variable {file : SourceFile}

/-- A record's checks and diagnostics, site by site. -/
theorem ofRecord_sites (fields : file.hasDistinctFields = true) {decl : TypeDecl}
    (hdecl : decl ∈ file.decls) :
    ofMarkers file.decls decl.name [] (wellFormed decl) =
      ((Site.inRecord decl).flatMap fun site => (site.judged file.decls decl.name).1,
        (Site.inRecord decl).flatMap fun site => (site.judged file.decls decl.name).2) := by
  have distinct := Site.paths_nodup (List.all_eq_true.1 fields decl hdecl)
  rw [Site.wellFormed_eq, ofMarkers_sites file.decls decl.name [] distinct fun check h => nomatch h]
  rfl

theorem mem_initial_sites (fields : file.hasDistinctFields = true) {plan : Plan}
    (hplan : plan ∈ initial file) {check : Check} (hcheck : check ∈ plan.checks) :
    ∃ site : Site, site.node ∈ file.nodes ∧
      ∃ record, check ∈ (site.judged file.decls record).1 := by
  obtain ⟨decl, hdecl, hplan⟩ := mem_initial.1 hplan
  have hmem := (List.mem_filter.1 hdecl).1
  obtain ⟨-, rfl⟩ := ofRecord_some hplan
  simp only at hcheck
  rw [ofRecord_sites fields hmem] at hcheck
  obtain ⟨site, hsite, hcheck⟩ := List.mem_flatMap.1 hcheck
  exact ⟨site, Site.node_mem hmem hsite, decl.name, hcheck⟩

theorem mem_initialDiagnostics_sites (fields : file.hasDistinctFields = true) {d : Diagnostic}
    (hd : d ∈ initialDiagnostics file) :
    ∃ site : Site, site.node ∈ file.nodes ∧ ∃ record, d.position ∈
      (site.judged file.decls record).2.map (·.position) ++
        (site.malformed record).map (·.position) := by
  obtain ⟨decl, hdecl, hd⟩ := List.mem_flatMap.1 hd
  have hmem := (List.mem_filter.1 hdecl).1
  have split : (ofRecord file.decls decl).2 = malformed decl ++
    (ofMarkers file.decls decl.name [] (wellFormed decl)).2 := rfl
  rw [split, Site.malformed_eq, ofRecord_sites fields hmem] at hd
  rcases List.mem_append.1 hd with hd | hd
  · obtain ⟨site, hsite, hd⟩ := List.mem_flatMap.1 hd
    exact ⟨site, Site.node_mem hmem hsite, decl.name,
      List.mem_append_right _ (List.mem_map_of_mem hd)⟩
  · obtain ⟨site, hsite, hd⟩ := List.mem_flatMap.1 hd
    exact ⟨site, Site.node_mem hmem hsite, decl.name,
      List.mem_append_left _ (List.mem_map_of_mem hd)⟩

/-- Where a diagnostic is reported, either before settling or for a check that cannot be made, no
check stays that could be made. -/
theorem isLost_of_reported (fields : file.hasDistinctFields = true)
    (places : (file.nodes.flatMap Node.places).Nodup) {kept : List String} {plan : Plan}
    (hplan : plan ∈ initial file) {check : Check} (hcheck : check ∈ plan.checks) {d : Diagnostic}
    (hd : d ∈ initialDiagnostics file ++ lossesFrom kept (initial file))
    (same : d.position = check.position) : isLost kept check = true := by
  obtain ⟨site, hsite, record, hjudged⟩ := mem_initial_sites fields hplan hcheck
  have perm := site.judged_perm file.decls record
  have nodup := perm.nodup_iff.2 ((List.nodup_flatMap.1 places).1 site.node hsite)
  have hplace : check.position ∈ site.node.places :=
    perm.mem_iff.1 (List.mem_append_left _ (List.mem_map_of_mem hjudged))
  rcases List.mem_append.1 hd with hd | hd
  · obtain ⟨other, hother, name, hfound⟩ := mem_initialDiagnostics_sites fields hd
    have found := (other.judged_perm file.decls name).mem_iff.1 (List.mem_append_right _ hfound)
    have sameNode := node_unique places hother hsite found (same ▸ hplace)
    -- The same line is reported at this site, so it is no check here.
    rw [← (Site.judged_at sameNode).2, ← Site.malformed_at sameNode, same] at hfound
    exact absurd rfl ((List.nodup_append.1 nodup).2.2 _ (List.mem_map_of_mem hjudged) _ hfound)
  · obtain ⟨lostPlan, hlostPlan, hd⟩ := List.mem_flatMap.1 hd
    obtain ⟨lost, hfiltered, rfl⟩ := List.mem_map.1 hd
    obtain ⟨hlost, isLost⟩ := List.mem_filter.1 hfiltered
    obtain ⟨other, hother, name, hfound⟩ := mem_initial_sites fields hlostPlan hlost
    have found := (other.judged_perm file.decls name).mem_iff.1
      (List.mem_append_left _ (List.mem_map_of_mem hfound))
    have sameNode := node_unique places hsite hother hplace (same ▸ found)
    have moved := (Site.judged_at sameNode : _ ∧
      (other.judged file.decls name).2.map (·.position) =
        (site.judged file.decls record).2.map (·.position)).1
    rw [moved] at hfound
    obtain ⟨twin, htwin, rfl⟩ := List.mem_map.1 hfound
    have checksNodup := (List.nodup_append.1 nodup).1
    have : check = twin := List.inj_on_of_nodup_map checksNodup hjudged htwin same.symm
    rw [this]
    exact isLost

end Plan

end FieldRules
