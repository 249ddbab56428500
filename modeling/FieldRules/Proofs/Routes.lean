/-
The names on the way to a field say which field it is.

Where the fields of a struct have different names, and those of the structs inside it,
two chains from the struct that start with the same names start with the same fields
(`Declares.extends`).  So a check below a field goes on from the type of that field,
which then is a struct or a pointer to one.
-/
import FieldRules.Proofs.Agreement
import FieldRules.Proofs.Independence

namespace FieldRules
namespace Go

variable {fields : List Field} {chain longer : Chain} {leaf : String × TypeExpr}

/-- Of fields with different names one only has a name. -/
theorem field_unique (unique : (fields.flatMap Field.names).Nodup) {field other : Field}
    (hfield : field ∈ fields) (hother : other ∈ fields) {name : String}
    (hname : name ∈ field.names) (hname' : name ∈ other.names) : field = other := by
  by_contra apart
  have symmetric : Std.Symm (Function.onFun List.Disjoint Field.names) :=
    ⟨fun _ _ disjoint _ h h' => disjoint h' h⟩
  exact (List.nodup_flatMap.1 unique).2.forall hfield hother apart hname hname'

/-- The fields have different names, and so have those of each struct that is one of them or that
one of them points to, however deep. -/
structure AreDistinct (fields : List Field) : Prop where
  unique : (fields.flatMap Field.names).Nodup
  inside : TypeExpr.haveDistinctFields fields = true

theorem TypeExpr.areDistinct_of_fields? {type : TypeExpr} (h : type.hasDistinctFields = true)
    (hfields : type.fields? = some fields) : AreDistinct fields := by
  unfold fields? at hfields
  split at hfields
  · cases hfields
    rw [hasDistinctFields, Bool.and_eq_true, decide_eq_true_iff] at h
    exact ⟨h.1, h.2⟩
  · cases hfields
    rw [hasDistinctFields, hasDistinctFields, Bool.and_eq_true, decide_eq_true_iff] at h
    exact ⟨h.1, h.2⟩
  · cases hfields

theorem TypeExpr.hasDistinctFields_of_mem (h : haveDistinctFields fields = true) {field : Field}
    (hfield : field ∈ fields) : field.type.hasDistinctFields = true := by
  induction fields with
  | nil => cases hfield
  | cons first fields ih =>
    rw [haveDistinctFields, Bool.and_eq_true] at h
    rcases List.mem_cons.1 hfield with rfl | hfield
    · cases field
      exact h.1
    · exact ih h.2 hfield

theorem AreDistinct.inner (distinct : AreDistinct fields) {field : Field} (hfield : field ∈ fields)
    {inner : List Field} (hinner : field.type.fields? = some inner) : AreDistinct inner :=
  TypeExpr.areDistinct_of_fields? (TypeExpr.hasDistinctFields_of_mem distinct.inside hfield) hinner

theorem areDistinct_of_recordFields? {file : SourceFile} (h : file.hasDistinctFields = true)
    {decl : TypeDecl} (hdecl : decl ∈ file.decls) (hfields : decl.recordFields? = some fields) :
    AreDistinct fields := by
  refine TypeExpr.areDistinct_of_fields? (List.all_eq_true.1 h decl hdecl) ?_
  rw [Site.recordFields?_type hfields]
  rfl

/-- The first field of a chain. -/
theorem Declares.head {step : String × TypeExpr} (h : Declares fields (step :: chain)) :
    ∃ field ∈ fields, step.1 ∈ field.names ∧ step.2 = field.type := by
  cases h with
  | last hfield hname => exact ⟨_, hfield, hname, rfl⟩
  | more hfield hname => exact ⟨_, hfield, hname, rfl⟩

/-- Chains whose first names are the same have the same first field. -/
theorem Declares.head_unique (unique : (fields.flatMap Field.names).Nodup)
    {step other : String × TypeExpr} (h : Declares fields (step :: chain))
    (h' : Declares fields (other :: longer)) (same : step.1 = other.1) : step = other := by
  obtain ⟨field, hfield, hname, htype⟩ := h.head
  obtain ⟨field', hfield', hname', htype'⟩ := h'.head
  rw [← same] at hname'
  cases field_unique unique hfield hfield' hname hname'
  exact Prod.ext same (htype.trans htype'.symm)

/-- A chain that has the names of another in front goes on from where that one leads. -/
theorem Declares.extends (distinct : AreDistinct fields) (h : Declares fields (chain ++ [leaf]))
    (h' : Declares fields longer) {more : List String}
    (names : Chain.names longer = Chain.names chain ++ leaf.1 :: more) :
    ∃ rest, longer = chain ++ leaf :: rest ∧ Chain.names rest = more := by
  induction chain generalizing fields longer with
  | nil =>
    cases longer with
    | nil => cases names
    | cons first rest =>
      obtain ⟨same, hrest⟩ := List.cons.inj names
      exact ⟨rest, by rw [h'.head_unique distinct.unique h same]; rfl, hrest⟩
  | cons step chain ih =>
    cases longer with
    | nil => cases names
    | cons first longer =>
      obtain ⟨same, hnames⟩ := List.cons.inj names
      cases h'.head_unique distinct.unique h same
      have further : chain ++ [leaf] ≠ [] :=
        List.append_ne_nil_of_right_ne_nil _ (List.cons_ne_nil _ _)
      have further' : longer ≠ [] := by
        rintro rfl
        exact List.append_ne_nil_of_right_ne_nil _ (List.cons_ne_nil _ _) hnames.symm
      obtain ⟨inner, hinner, hchain⟩ := Chain.declares_tail h further
      obtain ⟨inner', hinner', hlonger⟩ := Chain.declares_tail h' further'
      cases hinner.symm.trans hinner'
      obtain ⟨field, hfield, -, htype⟩ := h.head
      rw [htype] at hinner
      obtain ⟨rest, rfl, hrest⟩ := ih (distinct.inner hfield hinner) hchain hlonger hnames
      exact ⟨rest, rfl, hrest⟩

/-- What a chain leads through has fields. -/
theorem Declares.opened {rest : Chain} (h : Declares fields (chain ++ leaf :: rest))
    (ne : rest ≠ []) : leaf.2.fields?.isSome = true := by
  induction chain generalizing fields with
  | nil =>
    obtain ⟨inner, hinner, -⟩ := Chain.declares_tail h ne
    rw [hinner]
    rfl
  | cons step chain ih =>
    have further : chain ++ leaf :: rest ≠ [] :=
      List.append_ne_nil_of_right_ne_nil _ (List.cons_ne_nil _ _)
    obtain ⟨inner, -, hchain⟩ := Chain.declares_tail h further
    exact ih hchain

end Go

open Go

/-- Of records with different names one only has a name. -/
theorem Plan.DistinctRecords.unique {file : SourceFile} (distinct : DistinctRecords file)
    {decl other : TypeDecl} (hdecl : decl ∈ file.decls) (hother : other ∈ file.decls)
    {fields more : List Field} (hfields : decl.recordFields? = some fields)
    (hmore : other.recordFields? = some more) (same : decl.name = other.name) : decl = other := by
  have isRecord : ∀ decl ∈ file.decls, ∀ fields, decl.recordFields? = some fields →
      decl ∈ file.decls.filter (·.isRecord) := by
    intro decl hdecl fields hfields
    refine List.mem_filter.2 ⟨hdecl, ?_⟩
    rw [TypeDecl.isRecord, hfields]
    rfl
  exact List.inj_on_of_nodup_map distinct (isRecord decl hdecl fields hfields)
    (isRecord other hother more hmore) same

/-- The path of a check of a record that was parsed is made of names. -/
theorem Go.Chain.LeadsTo.isName {source : List Char} {file : SourceFile}
    (parsed : SourceFile.parse source = .ok file) {decl : TypeDecl} (hdecl : decl ∈ file.decls)
    {fields : List Field} (hfields : decl.recordFields? = some fields) {chain : Chain}
    {leaf : String × TypeExpr} {check : Check}
    (leads : LeadsTo file.decls fields chain leaf check) :
    ∀ name ∈ check.path.segments, isName name.toList = true := by
  intro name hname
  refine parse_names parsed decl hdecl name ?_
  rw [Site.recordFields?_type hfields, TypeExpr.names]
  refine leads.declared.names_subset ?_
  rw [Chain.names, List.map_append]
  rw [leads.path] at hname
  exact hname

end FieldRules
