/-
Comments in one record do not reach the records that do not require it.

Two files that differ in doc comments inside one record have the same kinds, and
the same plans before settling for all other records.  The records that another
one leads to by `required` markers form a region of the plans of both files, and
settling it is settling its own plans (`settle_within`).  Where the changed record
is not in it, everything that is compiled for its records is the same in both
files (`ofFile_apart`).
-/
import FieldRules.Proofs.Accounting
import FieldRules.Proofs.Authority
import FieldRules.Proofs.Depth
import FieldRules.Proofs.Docs
import FieldRules.Proofs.Regions

namespace FieldRules

open Go Text

namespace Go

/-- A declaration without the doc comments above its fields. -/
def TypeDecl.bare (decl : TypeDecl) : TypeDecl := decl.mapDocs fun _ => []

/-- Whether two declarations are the same but for doc comments above fields inside one record. -/
def TypeDecl.SameBut (record : String) (decl twin : TypeDecl) : Prop :=
  decl = twin ∨ decl.isRecord = true ∧ decl.name = record ∧ decl.bare = twin.bare

/-- Whether two files are the same but for doc comments above fields inside one record. -/
structure SourceFile.SameBut (record : String) (file other : SourceFile) : Prop where
  package : file.package = other.package
  decls : List.Forall₂ (TypeDecl.SameBut record) file.decls other.decls

namespace TypeDecl

variable {record : String} {decl twin : TypeDecl}

theorem SameBut.bare (h : SameBut record decl twin) : decl.bare = twin.bare := by
  rcases h with rfl | ⟨-, -, bare⟩
  · rfl
  · exact bare

theorem SameBut.name (h : SameBut record decl twin) : decl.name = twin.name :=
  show decl.bare.name = twin.bare.name from congrArg TypeDecl.name h.bare

theorem SameBut.isRecord (h : SameBut record decl twin) : decl.isRecord = twin.isRecord := by
  have same := congrArg TypeDecl.isRecord h.bare
  unfold TypeDecl.bare at same
  rwa [mapDocs_isRecord, mapDocs_isRecord] at same

/-- A declaration of another name is the same in both lists. -/
theorem mem_of_sameBut {decls twins : List TypeDecl} (same : List.Forall₂ (SameBut record) decls twins)
    (htwin : twin ∈ twins) (elsewhere : twin.name ≠ record) : twin ∈ decls := by
  induction same with
  | nil => cases htwin
  | cons first _ ih =>
    rcases List.mem_cons.1 htwin with rfl | htwin
    · rcases first with rfl | ⟨hrecord, hname, bare⟩
      · exact List.mem_cons_self
      · exact absurd ((SameBut.name (.inr ⟨hrecord, hname, bare⟩)).symm.trans hname) elsewhere
    · exact List.mem_cons_of_mem _ (ih htwin)

end TypeDecl

namespace SourceFile.SameBut

variable {record : String} {file other : SourceFile}

theorem bare_eq (h : SourceFile.SameBut record file other) :
    file.decls.map TypeDecl.bare = other.decls.map TypeDecl.bare := by
  rw [← List.forall₂_eq_eq_eq, List.forall₂_map_left_iff, List.forall₂_map_right_iff]
  exact h.decls.imp fun decl twin same => same.bare

/-- All types have the same kinds. -/
theorem ofType_eq (h : SourceFile.SameBut record file other) (type : TypeExpr) :
    Kind.ofType file.decls type = Kind.ofType other.decls type := by
  have bare := h.bare_eq
  unfold TypeDecl.bare at bare
  rw [← Kind.ofType_mapDocs (fun _ => []) file.decls, bare, Kind.ofType_mapDocs]

theorem distinctRecords (h : SourceFile.SameBut record file other)
    (distinct : Plan.DistinctRecords file) : Plan.DistinctRecords other := by
  have names (decls : List TypeDecl) : ((decls.map TypeDecl.bare).filter (·.isRecord)).map (·.name) =
      (decls.filter (·.isRecord)).map (·.name) := by
    rw [List.filter_map, List.map_map]
    congr 1
    exact List.filter_congr fun decl _ => decl.mapDocs_isRecord _
  unfold Plan.DistinctRecords at distinct ⊢
  rw [← names, h.bare_eq, names] at distinct
  exact distinct

end SourceFile.SameBut

end Go

namespace Plan

/-! ### Kinds are all that counts of other declarations -/

variable {decls others : List TypeDecl}

theorem ofMarkers_congr (kinds : ∀ type, Kind.ofType decls type = Kind.ofType others type)
    (record : String) (before : List Check) (markers : List (Occurrence × Marker)) :
    ofMarkers decls record before markers = ofMarkers others record before markers := by
  induction markers generalizing before with
  | nil => rfl
  | cons found markers ih =>
    obtain ⟨occurrence, marker⟩ := found
    have same : checkOf decls occurrence marker = checkOf others occurrence marker := by
      unfold checkOf
      simp only [kinds]
    have step : checkOrDiagnose decls record before occurrence marker =
        checkOrDiagnose others record before occurrence marker := by
      unfold checkOrDiagnose
      rw [same]
    rw [ofMarkers, ofMarkers, step]
    cases checkOrDiagnose others record before occurrence marker with
    | ok check => exact ih _
    | error d => simp only [ih]

theorem ofRecord_congr (kinds : ∀ type, Kind.ofType decls type = Kind.ofType others type)
    (decl : TypeDecl) : ofRecord decls decl = ofRecord others decl := by
  unfold ofRecord
  rw [ofMarkers_congr kinds]

theorem mem_ofMarkers_snd {record : String} {before : List Check}
    {markers : List (Occurrence × Marker)} {d : Diagnostic}
    (h : d ∈ (ofMarkers decls record before markers).2) : d.record = record := by
  obtain ⟨found, -, before, told⟩ := mem_ofMarkers_error h
  have step := checkOrDiagnose_mark decls record before found.1 found.2
  rw [told] at step
  exact step.1

/-- The diagnostics of a record name it. -/
theorem mem_ofRecord_snd {decl : TypeDecl} {d : Diagnostic} (h : d ∈ (ofRecord decls decl).2) :
    d.record = decl.name := by
  rcases List.mem_append.1 (h : d ∈ malformed decl ++ _) with h | h
  · obtain ⟨occurrence, -, hd⟩ := List.mem_filterMap.1 h
    cases hreading : occurrence.reading with
    | ok marker => rw [hreading] at hd; cases hd
    | error bad =>
      rw [hreading] at hd
      cases hd
      rfl
  · exact mem_ofMarkers_snd h

/-! ### What a record requires -/

/-- The record that a marker requires: for a `required` marker, the named record that is the type of
its field. -/
def requirement? (decls : List TypeDecl) (occurrence : Occurrence) : Option String :=
  match occurrence.reading with
  | .error _ => none
  | .ok marker =>
    match Rule.ofSpelling? marker.rule, Kind.ofType decls occurrence.type with
    | some .required, .record name _ => name
    | _, _ => none

/-- Whether a marker in a record requires another record. -/
def Requires (file : SourceFile) (record target : String) : Prop :=
  ∃ decl ∈ file.decls, decl.name = record ∧
    ∃ occurrence ∈ Occurrence.inRecord decl, requirement? file.decls occurrence = some target

theorem requirement?_of_target {occurrence : Occurrence} {marker : Marker} {check : Check}
    {name : String} (hreading : occurrence.reading = .ok marker)
    (h : checkOf decls occurrence marker = .ok check) (htarget : target? check = some name) :
    requirement? decls occurrence = some name := by
  have hkind := (checkOf_ok h).2.2.1
  unfold target? at htarget
  split at htarget
  · next other comparable hrule hrecord =>
    cases htarget
    rw [hrecord] at hkind
    unfold requirement?
    rw [hreading]
    simp only [checkOf_rule h, hrule, ← hkind]
  · cases htarget

theorem requires_of_target {file : SourceFile} {decl : TypeDecl}
    (hdecl : decl ∈ file.decls.filter (·.isRecord)) {plan : Plan}
    (hplan : (ofRecord file.decls decl).1 = some plan) {check : Check}
    (hcheck : check ∈ plan.checks) {name : String} (htarget : target? check = some name) :
    Requires file plan.record name := by
  obtain ⟨occurrence, hoccurrence, marker, hreading, hfrom⟩ := mem_ofRecord_checks hplan hcheck
  have hname : decl.name = plan.record := (congrArg Plan.record (ofRecord_some hplan).2).symm
  exact ⟨decl, (List.mem_filter.1 hdecl).1, hname, occurrence, hoccurrence,
    requirement?_of_target hreading hfrom htarget⟩

/-- Whether a set of records contains what each of them requires. -/
def IsClosed (file : SourceFile) (region : String → Prop) : Prop :=
  ∀ record target, region record → Requires file record target → region target

variable {region : String → Prop} {file other : SourceFile} {changed : String}

theorem IsClosed.initial (closed : IsClosed file region) : IsRegion region (initial file) := by
  intro plan hplan inside check hcheck name htarget
  obtain ⟨decl, hdecl, hplan⟩ := mem_initial.1 hplan
  exact closed plan.record name inside (requires_of_target hdecl hplan hcheck htarget)

theorem IsClosed.settled (closed : IsClosed file region) : IsRegion region (ofFile file).1 := by
  intro plan hplan inside check hcheck name htarget
  obtain ⟨decl, hdecl, built, hbuilt, rfl, -⟩ := mem_ofFile hplan
  obtain ⟨made, hmade, hsettled⟩ := List.mem_filterMap.1 hcheck
  rw [(settleCheck_some hsettled).1] at htarget
  exact closed built.record name inside (requires_of_target hdecl hbuilt hmade htarget)

/-- Where comments differ in another record, a record requires the same. -/
theorem Requires.of_sameBut (same : SourceFile.SameBut changed file other) {record target : String}
    (elsewhere : record ≠ changed) (h : Requires other record target) :
    Requires file record target := by
  obtain ⟨decl, hdecl, rfl, occurrence, hoccurrence, requires⟩ := h
  unfold requirement? at requires
  simp only [← same.ofType_eq] at requires
  exact ⟨decl, TypeDecl.mem_of_sameBut same.decls hdecl elsewhere, rfl, occurrence, hoccurrence,
    requires⟩

theorem IsClosed.of_sameBut (same : SourceFile.SameBut changed file other) (closed : IsClosed file region)
    (outside : ¬region changed) : IsClosed other region := by
  intro record target inside requires
  have elsewhere : record ≠ changed := fun h => outside (h ▸ inside)
  exact closed record target inside (requires.of_sameBut same elsewhere)

/-! ### The plans of a region -/

variable [DecidablePred region]

/-- A record outside of a region adds neither plans nor diagnostics to it. -/
theorem ofRecord_outside {decl : TypeDecl} (outside : ¬region decl.name) :
    within region (ofRecord decls decl).1.toList = [] ∧
      concerning region (ofRecord decls decl).2 = [] := by
  constructor
  · cases hplan : (ofRecord decls decl).1 with
    | none => rfl
    | some plan =>
      have record : ¬region plan.record := by rw [(ofRecord_some hplan).2]; exact outside
      simp [within, record]
  · refine List.filter_eq_nil_iff.2 fun d hd => ?_
    rw [mem_ofRecord_snd hd]
    simpa using outside

theorem records_apart {records twins : List TypeDecl}
    (same : List.Forall₂ (TypeDecl.SameBut changed) records twins) (outside : ¬region changed) :
    within region ((records.filter (·.isRecord)).filterMap fun decl => (ofRecord decls decl).1) =
        within region ((twins.filter (·.isRecord)).filterMap fun decl => (ofRecord decls decl).1) ∧
      concerning region ((records.filter (·.isRecord)).flatMap fun decl =>
          (ofRecord decls decl).2) =
        concerning region ((twins.filter (·.isRecord)).flatMap fun decl =>
          (ofRecord decls decl).2) := by
  induction same with
  | nil => exact ⟨rfl, rfl⟩
  | @cons decl twin records twins alike _ ih =>
    obtain ⟨plans, ds⟩ := ih
    have split (first : TypeDecl) (more : List TypeDecl) :
        (first :: more).filterMap (fun decl => (ofRecord decls decl).1) =
          (ofRecord decls first).1.toList ++ more.filterMap fun decl => (ofRecord decls decl).1 := by
      rw [List.filterMap_cons]
      cases (ofRecord decls first).1 <;> rfl
    by_cases isRecord : decl.isRecord = true
    · rw [List.filter_cons_of_pos isRecord, List.filter_cons_of_pos (alike.isRecord ▸ isRecord),
        split, split, within_append, within_append, List.flatMap_cons, List.flatMap_cons,
        concerning_append, concerning_append, plans, ds]
      rcases alike with rfl | ⟨-, hname, bare⟩
      · exact ⟨rfl, rfl⟩
      · have hdecl : ¬region decl.name := hname ▸ outside
        have htwin : ¬region twin.name :=
          TypeDecl.SameBut.name (.inr ⟨isRecord, hname, bare⟩) ▸ hdecl
        rw [(ofRecord_outside hdecl).1, (ofRecord_outside hdecl).2, (ofRecord_outside htwin).1,
          (ofRecord_outside htwin).2]
        exact ⟨rfl, rfl⟩
    · rw [List.filter_cons_of_neg isRecord, List.filter_cons_of_neg (alike.isRecord ▸ isRecord)]
      exact ⟨plans, ds⟩

/-- The plans of a region and what is said of its records, where the only records that differ are
outside of it. -/
theorem ofFile_apart (same : SourceFile.SameBut changed file other)
    (distinct : DistinctRecords file) (closed : IsClosed file region)
    (outside : ¬region changed) :
    within region (ofFile file).1 = within region (ofFile other).1 ∧
      concerning region (ofFile file).2 = concerning region (ofFile other).2 := by
  have records : ofRecord file.decls = ofRecord other.decls :=
    funext (ofRecord_congr same.ofType_eq)
  obtain ⟨plans, ds⟩ := records_apart same.decls outside
  have before : within region (initial file) = within region (initial other) := by
    unfold initial
    rw [records]
    exact plans
  have said : concerning region (initialDiagnostics file) =
      concerning region (initialDiagnostics other) := by
    unfold initialDiagnostics
    rw [records]
    exact ds
  have settled := settle_within (initial_nonempty file) closed.initial
  rw [before, settle_within (initial_nonempty other)
    (closed.of_sameBut same outside).initial] at settled
  rw [ofFile_eq distinct, ofFile_eq (same.distinctRecords distinct), concerning_append,
    concerning_append, said]
  obtain ⟨left, lost⟩ := Prod.mk.inj settled
  exact ⟨left.symm, congrArg _ lost.symm⟩

/-! ### What depends on the plans of a region only -/

/-- Whether the checks of a region hand over inside it. -/
def HandsOverInside (region : String → Prop) (plans : List Plan) : Prop :=
  ∀ plan ∈ plans, region plan.record →
    ∀ check ∈ plan.checks, ∀ name, check.delegate = some name → region name

omit [DecidablePred region] in
theorem IsClosed.handsOverInside (closed : IsClosed file region) :
    HandsOverInside region (ofFile file).1 :=
  fun plan hplan inside check hcheck name delegate =>
    closed.settled plan hplan inside check hcheck name (ofFile_delegate hplan hcheck delegate).1

theorem mem_within {plans : List Plan} {plan : Plan} :
    plan ∈ within region plans ↔ plan ∈ plans ∧ region plan.record := by
  unfold within
  rw [List.mem_filter, decide_eq_true_iff]

theorem mem_concerning {ds : List Diagnostic} {d : Diagnostic} :
    d ∈ concerning region ds ↔ d ∈ ds ∧ region d.record := by
  unfold concerning
  rw [List.mem_filter, decide_eq_true_iff]

variable {plans twins : List Plan} {ds es : List Diagnostic} {name : String}

theorem find?_within (plans : List Plan) (inside : region name) :
    (within region plans).find? (·.record == name) = plans.find? (·.record == name) := by
  unfold within
  rw [List.find?_filter]
  congr 1
  funext plan
  by_cases h : plan.record = name
  · simp [h, inside]
  · simp [h]

theorem find?_apart (samePlans : within region plans = within region twins)
    (inside : region name) :
    plans.find? (·.record == name) = twins.find? (·.record == name) := by
  rw [← find?_within plans inside, samePlans, find?_within twins inside]

/-- The diagnostics of a record of a region, in the order in which they are reported. -/
theorem forRecord_apart (sameDs : concerning region ds = concerning region es)
    (inside : region name) :
    Diagnostic.forRecord name (Diagnostic.sort ds) =
      Diagnostic.forRecord name (Diagnostic.sort es) := by
  have only (ds : List Diagnostic) :
      ds.filter (·.record == name) = (concerning region ds).filter (·.record == name) := by
    unfold concerning
    rw [List.filter_filter]
    refine List.filter_congr fun d _ => ?_
    by_cases h : d.record = name <;> simp [h, inside]
  unfold Diagnostic.forRecord
  rw [Diagnostic.filter_sort, Diagnostic.filter_sort, only, sameDs, ← only]

/-- A plan of a region that cannot be relied on leads to a diagnostic inside the region. -/
theorem unsettled_apart (closed : HandsOverInside region plans)
    (samePlans : within region plans = within region twins)
    (sameDs : concerning region ds = concerning region es) (inside : region name)
    (h : name ∈ unsettled plans (Diagnostic.sort ds)) :
    name ∈ unsettled twins (Diagnostic.sort es) := by
  obtain ⟨d, hd, planned, leads⟩ := mem_unsettled.1 h
  have both : ∀ target, Relation.ReflTransGen (HandsOver plans) name target →
      region target ∧ Relation.ReflTransGen (HandsOver twins) name target := by
    intro target leads
    induction leads with
    | refl => exact ⟨inside, .refl⟩
    | tail _ hands ih =>
      obtain ⟨below, leads⟩ := ih
      obtain ⟨plan, hplan, rfl, check, hcheck, delegate⟩ := hands
      have hmem : plan ∈ within region twins := samePlans ▸ mem_within.2 ⟨hplan, below⟩
      exact ⟨closed plan hplan below check hcheck _ delegate,
        leads.tail ⟨plan, (mem_within.1 hmem).1, rfl, check, hcheck, delegate⟩⟩
  obtain ⟨about, leads⟩ := both d.record leads
  rw [(Diagnostic.sort_perm ds).mem_iff] at hd
  have reported : d ∈ concerning region es := sameDs ▸ mem_concerning.2 ⟨hd, about⟩
  obtain ⟨plan, hplan, hname⟩ := List.mem_map.1 planned
  have left : plan ∈ within region twins := samePlans ▸ mem_within.2 ⟨hplan, hname ▸ about⟩
  exact mem_unsettled.2 ⟨d, (Diagnostic.sort_perm es).mem_iff.2 (mem_concerning.1 reported).1,
    List.mem_map.2 ⟨plan, (mem_within.1 left).1, hname⟩, leads⟩

theorem find?_validators (plans : List Plan) (name : String) :
    Validator.find? (plans.map Validator.ofPlan) name =
      (plans.find? (·.record == name)).map Validator.ofPlan := by
  unfold Validator.find?
  rw [List.find?_map]
  rfl

/-- The validators of a region report the same among both plans, or never end among either. -/
theorem validate_apart (closed : HandsOverInside region plans)
    (samePlans : within region plans = within region twins) (inside : region name)
    (record : Record) :
    (Validator.find? (plans.map Validator.ofPlan) name).map
        (fun validator => validator.validate (plans.map Validator.ofPlan) record) =
      (Validator.find? (twins.map Validator.ofPlan) name).map
        fun validator => validator.validate (twins.map Validator.ofPlan) record := by
  have lookup (name : String) (inside : region name) :
      Validator.find? (plans.map Validator.ofPlan) name =
        Validator.find? (twins.map Validator.ofPlan) name := by
    rw [find?_validators, find?_validators, find?_apart samePlans inside]
  have handed : ∀ name validator, region name →
      Validator.find? (plans.map Validator.ofPlan) name = some validator →
      ∀ check ∈ validator.checks, ∀ target, check.delegate = some target → region target := by
    intro name validator inside found check hcheck target delegate
    rw [find?_validators] at found
    obtain ⟨plan, hplan, rfl⟩ := Option.map_eq_some_iff.1 found
    have hname := List.find?_some hplan
    rw [beq_iff_eq] at hname
    exact closed plan (List.mem_of_find?_eq_some hplan) (hname ▸ inside) check hcheck target
      delegate
  rw [← lookup name inside]
  cases found : Validator.find? (plans.map Validator.ofPlan) name with
  | none => rfl
  | some validator =>
    refine congrArg some (Validator.validate_congr fun depth => ?_)
    exact Validator.run_congr lookup handed depth (handed name validator inside found) record _

end Plan

namespace CompiledUnit

open Plan

/-- The artifact of a record of a region, which includes whether it is authoritative. -/
theorem find?_artifacts_apart {region : String → Prop} [DecidablePred region]
    {plans twins : List Plan} {ds es : List Diagnostic} {name : String}
    (closed : HandsOverInside region plans) (closedTwin : HandsOverInside region twins)
    (samePlans : within region plans = within region twins)
    (sameDs : concerning region ds = concerning region es) (inside : region name)
    (options : Emission.Options) (package sourceName : String) :
    (plans.map (artifact options package sourceName
        (unsettled plans (Diagnostic.sort ds)))).find? (·.record == name) =
      (twins.map (artifact options package sourceName
        (unsettled twins (Diagnostic.sort es)))).find? (·.record == name) := by
  have reliable : name ∈ unsettled plans (Diagnostic.sort ds) ↔
      name ∈ unsettled twins (Diagnostic.sort es) :=
    ⟨unsettled_apart closed samePlans sameDs inside,
      unsettled_apart closedTwin samePlans.symm sameDs.symm inside⟩
  rw [List.find?_map, List.find?_map]
  show (plans.find? (·.record == name)).map _ = (twins.find? (·.record == name)).map _
  rw [← find?_apart samePlans inside]
  cases found : plans.find? (·.record == name) with
  | none => rfl
  | some plan =>
    have hname := List.find?_some found
    rw [beq_iff_eq] at hname
    simp only [Option.map_some, artifact, hname, List.contains_eq_mem, reliable]

/-- Other doc comments inside one record make no difference to a record that does not lead to it by
`required` markers, in no or more steps: not to its plan, nor to the code emitted for it, whether that
is authoritative, its diagnostics, and what its validator reports on any instance. -/
theorem ofFile_unreached (options : Emission.Options) (sourceName : String)
    {file other : SourceFile} {changed name : String}
    (same : SourceFile.SameBut changed file other) (distinct : DistinctRecords file)
    (apart : ¬Relation.ReflTransGen (Requires file) name changed) :
    let unit := ofFile options sourceName file
    let twin := ofFile options sourceName other
    unit.plans.find? (·.record == name) = twin.plans.find? (·.record == name) ∧
    unit.artifacts.find? (·.record == name) = twin.artifacts.find? (·.record == name) ∧
    Diagnostic.forRecord name unit.diagnostics = Diagnostic.forRecord name twin.diagnostics ∧
    ∀ record, (Validator.find? unit.validators name).map
        (fun validator => validator.validate unit.validators record) =
      (Validator.find? twin.validators name).map
        fun validator => validator.validate twin.validators record := by
  classical
  have closed : IsClosed file (Relation.ReflTransGen (Requires file) name) :=
    fun record target leads requires => leads.tail requires
  have closedTwin := closed.of_sameBut same apart
  have inside : Relation.ReflTransGen (Requires file) name name := .refl
  obtain ⟨plans, ds⟩ := ofFile_apart same distinct closed apart
  unfold ofFile validators
  simp only [← same.package]
  exact ⟨find?_apart plans inside,
    find?_artifacts_apart closed.handsOverInside closedTwin.handsOverInside plans ds inside ..,
    forRecord_apart ds inside,
    fun record => validate_apart closed.handsOverInside plans inside record⟩

/-- A user has an address, and an address a country; a comment stands above the user's address. -/
def addressBook (comment : String) : SourceFile :=
  let field := fun (name type : String) (line : Nat) (comment : String) =>
    (⟨[name], false, .named type, none, [⟨comment, ⟨line, 3⟩⟩], ⟨line + 1, 3⟩⟩ : Field)
  let record := fun (name : String) (line : Nat) (fields : List Field) =>
    (⟨name, none, false, .struct fields, [], ⟨line, 6⟩⟩ : TypeDecl)
  ⟨"p",
    [record "User" 2 [field "Home" "Address" 3 comment],
      record "Address" 6 [field "City" "string" 7 " +govalid:length=no",
        field "Land" "Country" 9 " +govalid:required"],
      record "Country" 12 [field "Name" "string" 13 " +govalid:required"]]⟩

/-- The user requires the address or not; the address does not lead back to the user. -/
theorem ofFile_unreached_addressBook :
    let file := addressBook " +govalid:required"
    let other := addressBook " +govalid:bogus"
    (SourceFile.SameBut "User" file other ∧ DistinctRecords file ∧
      ¬Relation.ReflTransGen (Requires file) "Address" "User") ∧
    let unit := ofFile .default "a.go" file
    let twin := ofFile .default "a.go" other
    (names unit.plans = ["User", "Address", "Country"] ∧
      names twin.plans = ["Address", "Country"] ∧ twin.diagnostics.length = 2) ∧
    unit.plans.find? (·.record == "Address") = twin.plans.find? (·.record == "Address") ∧
    unit.artifacts.find? (·.record == "Address") =
      twin.artifacts.find? (·.record == "Address") ∧
    Diagnostic.forRecord "Address" unit.diagnostics =
      Diagnostic.forRecord "Address" twin.diagnostics ∧
    ∀ record, (Validator.find? unit.validators "Address").map
        (fun validator => validator.validate unit.validators record) =
      (Validator.find? twin.validators "Address").map
        fun validator => validator.validate twin.validators record := by
  intro file other
  have same : SourceFile.SameBut "User" file other :=
    ⟨rfl, .cons (.inr ⟨rfl, rfl, rfl⟩) (.cons (.inl rfl) (.cons (.inl rfl) .nil))⟩
  have distinct : DistinctRecords file := by decide +kernel
  have stays : ∀ decl ∈ file.decls, decl.name ∈ ["Address", "Country"] →
      ∀ occurrence ∈ Occurrence.inRecord decl,
        ∀ target ∈ requirement? file.decls occurrence, target ∈ ["Address", "Country"] := by
    decide +kernel
  have inside : ∀ target, Relation.ReflTransGen (Requires file) "Address" target →
      target ∈ ["Address", "Country"] := by
    intro target leads
    induction leads with
    | refl => exact List.mem_cons_self
    | tail _ requires ih =>
      obtain ⟨decl, hdecl, rfl, occurrence, hoccurrence, hrequires⟩ := requires
      exact stays decl hdecl ih occurrence hoccurrence _ hrequires
  have apart : ¬Relation.ReflTransGen (Requires file) "Address" "User" :=
    fun leads => absurd (inside "User" leads) (by decide)
  exact ⟨⟨same, distinct, apart⟩, by decide +kernel,
    ofFile_unreached .default "a.go" same distinct apart⟩

end CompiledUnit

end FieldRules
