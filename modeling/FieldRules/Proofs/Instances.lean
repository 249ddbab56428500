/-
Records as instances of the structs that are declared for them.

A chain is a way down from a struct: the fields on it with their declared types.
It goes on through anonymous structs and pointers to them (`Declares`).  Along a
chain it is said when an instance has values of the declared kinds (`Conforms`),
and what is read from it under some field names (`read`): a missing field reads as
the zero value of its kind, and nothing is read behind a nil pointer.

Every site of a record has a chain, and its guards are the pointers on it
(`Site.inRecord_reached`).
-/
import FieldRules.Kind.Resolution
import FieldRules.Proofs.Expressions
import FieldRules.Proofs.Lexemes
import FieldRules.Proofs.Parsing
import FieldRules.Proofs.Sites
import FieldRules.Validator

namespace FieldRules
namespace Go

/-- What is read from a field of a kind that holds a value. -/
def Datum.ofValue : Kind → Value → Option Datum
  | .pointer _, .null => some (.pointer true)
  | .pointer _, _ => some (.pointer false)
  | _, .int value => some (.int value)
  | _, .text value => some (.text value)
  | _, .bool value => some (.bool value)
  | _, _ => none

namespace TypeExpr

def isPointer : TypeExpr → Bool
  | pointer _ => true
  | _ => false

/-- The fields that are selected from a value of the type, through a pointer or not. -/
def fields? : TypeExpr → Option (List Field)
  | struct fields => some fields
  | pointer (struct fields) => some fields
  | _ => none

end TypeExpr

/-- Fields on the way down from a struct, with their types. -/
abbrev Chain := List (String × TypeExpr)

/-- The chain leads from a struct with some fields to a field. -/
inductive Declares : List Field → Chain → Prop where
  | last {fields : List Field} {field : Field} {name : String} : field ∈ fields →
      name ∈ field.names → Declares fields [(name, field.type)]
  | more {fields inner : List Field} {field : Field} {name : String} {chain : Chain} :
      field ∈ fields → name ∈ field.names → field.type.fields? = some inner →
      Declares inner chain → Declares fields ((name, field.type) :: chain)

/-- The chain leads from a struct with some fields down to a struct with others. -/
inductive Opens : List Field → Chain → List Field → Prop where
  | here {fields : List Field} : Opens fields [] fields
  | deeper {fields inner last : List Field} {field : Field} {name : String} {chain : Chain} :
      field ∈ fields → name ∈ field.names → field.type.fields? = some inner →
      Opens inner chain last → Opens fields ((name, field.type) :: chain) last

theorem Opens.declares {fields last : List Field} {chain : Chain} (h : Opens fields chain last)
    {field : Field} (hfield : field ∈ last) {name : String} (hname : name ∈ field.names) :
    Declares fields (chain ++ [(name, field.type)]) := by
  induction h with
  | here => exact .last hfield hname
  | deeper hfirst hfirstName hinner _ ih => exact .more hfirst hfirstName hinner (ih hfield)

/-- Every field on the way down is an anonymous struct or a pointer to one. -/
theorem Opens.fields? {fields last : List Field} {chain : Chain} (h : Opens fields chain last) :
    ∀ step ∈ chain, (step.2.fields?).isSome = true := by
  induction h with
  | here => exact fun step hstep => nomatch hstep
  | deeper _ _ hinner _ ih =>
    refine List.forall_mem_cons.2 ⟨?_, ih⟩
    rw [hinner]
    rfl

namespace Chain

def names (chain : Chain) : List String := chain.map (·.1)

/-- The pointers on the way down from a place. -/
def pointers (walked : FieldPath) : Chain → List FieldPath
  | [] => []
  | (name, type) :: chain =>
    (if type.isPointer then [walked.child name] else []) ++ pointers (walked.child name) chain

/-- The values that are present along the chain are of the declared kinds. -/
def Conforms (decls : List TypeDecl) : Record → Chain → Prop
  | _, [] => True
  | record, (name, type) :: chain =>
    match record.get? name with
    | none => True
    | some value =>
      value.conforms (Kind.ofType decls type) = true ∧
        Conforms decls (Validator.asRecord value) chain

/-- The value of a declared field, zero where it is missing. -/
def found (decls : List TypeDecl) (record : Record) (step : String × TypeExpr) : Value :=
  (record.get? step.1).getD (Value.zero (Kind.ofType decls step.2))

/-- What an instance holds under some field names, where only the fields of the chain are known. -/
def read (decls : List TypeDecl) : Chain → Record → List String → Option Datum
  | step :: chain, record, name :: names =>
    if name ≠ step.1 then none
    else if names.isEmpty then
      Datum.ofValue (Kind.ofType decls step.2) (found decls record step)
    else
      match found decls record step with
      | .null => none
      | value => read decls chain (Validator.asRecord value) names
  | _, _, _ => none

/-- The pointers of a chain are the paths to the fields on it that are pointers. -/
theorem mem_pointers_iff {chain : Chain} {walked guard : FieldPath} :
    guard ∈ pointers walked chain ↔ ∃ before step after, chain = before ++ step :: after ∧
      step.2.isPointer = true ∧ guard.segments = walked.segments ++ names before ++ [step.1] := by
  induction chain generalizing walked with
  | nil =>
    constructor
    · exact fun h => nomatch h
    · rintro ⟨before, step, after, split, -⟩
      cases before <;> cases split
  | cons first chain ih =>
    have deeper (before : Chain) : (walked.child first.1).segments ++ names before =
        walked.segments ++ names (first :: before) := List.append_assoc _ [first.1] _
    rw [pointers, List.mem_append, ih]
    constructor
    · rintro (here | ⟨before, step, after, rfl, pointer, place⟩)
      · split at here
        · next pointer =>
          rw [List.mem_singleton.1 here]
          refine ⟨[], first, chain, rfl, pointer, ?_⟩
          rw [names, List.map_nil, List.append_nil]
          rfl
        · cases here
      · exact ⟨first :: before, step, after, rfl, pointer, deeper before ▸ place⟩
    · rintro ⟨before, step, after, split, pointer, place⟩
      cases before with
      | nil =>
        cases split
        rw [if_pos pointer, List.mem_singleton]
        rw [names, List.map_nil, List.append_nil] at place
        exact .inl (congrArg FieldPath.mk place)
      | cons other before =>
        cases split
        exact .inr ⟨before, step, after, rfl, pointer, (deeper before).symm ▸ place⟩

end Chain

/-! ### Names of fields -/

theorem TypeExpr.mem_namesOf {fields : List Field} {field : Field} (hfield : field ∈ fields)
    {name : String} (h : name ∈ namesIn field) : name ∈ namesOf fields := by
  induction fields with
  | nil => cases hfield
  | cons first fields ih =>
    rw [namesOf]
    rcases List.mem_cons.1 hfield with rfl | hfield
    · exact List.mem_append_left _ h
    · exact List.mem_append_right _ (ih hfield)

theorem TypeExpr.names_of_fields? {type : TypeExpr} {fields : List Field}
    (h : type.fields? = some fields) : type.names = namesOf fields := by
  unfold fields? at h
  split at h
  · cases h
    rw [names]
  · cases h
    rw [names, names]
  · cases h

theorem Declares.names_subset {fields : List Field} {chain : Chain} (h : Declares fields chain) :
    chain.names ⊆ TypeExpr.namesOf fields := by
  induction h with
  | @last fields field name hfield hname =>
    intro other hother
    rw [List.mem_singleton.1 hother]
    exact TypeExpr.mem_namesOf hfield (TypeExpr.namesIn_eq field ▸ List.mem_append_left _ hname)
  | @more fields inner field name chain hfield hname hinner hchain ih =>
    intro other hother
    refine TypeExpr.mem_namesOf hfield (TypeExpr.namesIn_eq field ▸ ?_)
    rcases List.mem_cons.1 hother with rfl | hother
    · exact List.mem_append_left _ hname
    · rw [TypeExpr.names_of_fields? hinner]
      exact List.mem_append_right _ (ih hother)

/-- The names in the types of a parsed source are names of Go. -/
theorem parse_names {source : List Char} {file : SourceFile}
    (parsed : SourceFile.parse source = .ok file) :
    ∀ decl ∈ file.decls, ∀ name ∈ decl.type.names, isName name.toList = true := by
  obtain ⟨lexemes, hlex, -, hnames⟩ := parse_traces parsed
  intro decl hdecl name hname
  obtain ⟨l, hl, hidentifier⟩ :=
    List.mem_filterMap.1 (hnames (List.mem_flatMap.2 ⟨decl, hdecl, hname⟩))
  have spells := ((lex_lexed hlex).sound l hl).1
  unfold Lexeme.name? at hidentifier
  split at hidentifier
  · next htoken =>
    cases hidentifier
    rw [htoken] at spells
    rw [← spells.1]
    exact spells.2
  · cases hidentifier

end Go

/-! ### Zero values -/

namespace Kind

open Go

/-- The zero value may stand in a field of the kind. -/
def HoldsZero (kind : Kind) : Prop := (Value.zero kind).conforms kind = true

theorem predeclared_holdsZero {name : String} {kind : Kind} (h : predeclared? name = some kind) :
    HoldsZero kind := by
  unfold predeclared? at h
  split at h <;> cases h <;> rfl

theorem declaredKind_holdsZero (decl : TypeDecl) {kind : Kind} (h : HoldsZero kind) :
    HoldsZero (declaredKind decl kind) := by
  unfold declaredKind
  split
  · split <;> rfl
  · exact h

theorem kindWith_holdsZero {named : String → Kind} (h : ∀ name, HoldsZero (named name))
    (comparable : TypeExpr → Bool) (type : TypeExpr) :
    HoldsZero (kindWith named comparable type) := by
  cases type with
  | named name => exact h name
  | _ => rfl

theorem kindOfName_holdsZero (decls : List TypeDecl) (depth : Nat) (visiting : List String)
    (name : String) : HoldsZero (kindOfName decls depth visiting name) := by
  induction depth generalizing visiting name with
  | zero => rfl
  | succ depth ih =>
    unfold kindOfName
    split
    · cases hname : predeclared? name with
      | none => rfl
      | some kind => exact predeclared_holdsZero hname
    · next decl _ =>
      split
      · rfl
      · exact declaredKind_holdsZero decl (kindWith_holdsZero (fun other => ih _ other) _ decl.type)

theorem ofType_holdsZero (decls : List TypeDecl) (type : TypeExpr) :
    HoldsZero (ofType decls type) :=
  kindWith_holdsZero (kindOfName_holdsZero decls _ []) _ type

end Kind

/-! ### The chains of sites -/

namespace Site

open Go Chain

/-- Some fields at `parent` lead to the site: a chain opens the struct that has its field. -/
def IsReached (parent : FieldPath) (guards : List FieldPath) (fields : List Field)
    (site : Site) : Prop :=
  ∃ chain last field name, Opens fields chain last ∧ field ∈ last ∧ name ∈ field.names ∧
    site.type = field.type ∧ site.doc = field.doc ∧
    site.path.segments = parent.segments ++ names chain ++ [name] ∧
    site.guards = guards ++ pointers parent chain

theorem IsReached.below {parent : FieldPath} {guards : List FieldPath} {fields inner : List Field}
    {field : Field} {name : String} {site : Site} (hfield : field ∈ fields)
    (hname : name ∈ field.names) (hinner : field.type.fields? = some inner)
    (h : IsReached (parent.child name)
      (guards ++ if field.type.isPointer then [parent.child name] else []) inner site) :
    IsReached parent guards fields site := by
  obtain ⟨chain, last, own, leaf, hchain, hown, hleaf, htype, hdoc, hpath, hguards⟩ := h
  refine ⟨(name, field.type) :: chain, last, own, leaf, .deeper hfield hname hinner hchain, hown,
    hleaf, htype, hdoc, ?_, ?_⟩
  · rw [hpath]
    simp [FieldPath.child, names]
  · rw [hguards, pointers, List.append_assoc]

mutual

theorem inFields_reached (parent : FieldPath) (guards : List FieldPath) (fields : List Field)
    {all : List Field} (sub : fields ⊆ all) :
    ∀ site ∈ inFields parent guards fields, IsReached parent guards all site := by
  match fields with
  | [] => exact fun site h => nomatch h
  | field :: fields =>
    intro site h
    rw [inFields] at h
    rcases List.mem_append.1 h with h | h
    · exact inField_reached parent guards field (sub List.mem_cons_self) site h
    · exact inFields_reached parent guards fields (List.subset_of_cons_subset sub) site h

theorem inField_reached (parent : FieldPath) (guards : List FieldPath) (field : Field)
    {all : List Field} (hfield : field ∈ all) :
    ∀ site ∈ inField parent guards field, IsReached parent guards all site := by
  match field with
  | ⟨names, embedded, type, tag, doc, position⟩ =>
    intro site h
    rw [inField] at h
    obtain ⟨name, hname, h⟩ := List.mem_flatMap.1 h
    rcases List.mem_cons.1 h with rfl | h
    · exact ⟨[], all, _, name, .here, hfield, hname, rfl, rfl,
        by simp [FieldPath.child, Chain.names], (List.append_nil _).symm⟩
    · obtain ⟨inner, hinner, reached⟩ := inType_reached (parent.child name) guards type site h
      exact reached.below hfield hname hinner

theorem inType_reached (path : FieldPath) (guards : List FieldPath) (type : TypeExpr) :
    ∀ site ∈ inType path guards type, ∃ inner, type.fields? = some inner ∧
      IsReached path (guards ++ if type.isPointer then [path] else []) inner site := by
  match type with
  | .struct fields =>
    intro site h
    have reached := inFields_reached path guards fields (List.Subset.refl _) site h
    rw [← List.append_nil guards] at reached
    exact ⟨fields, rfl, reached⟩
  | .pointer (.struct fields) =>
    intro site h
    exact ⟨fields, rfl,
      inFields_reached path (guards ++ [path]) fields (List.Subset.refl _) site h⟩
  | .named _ | .qualified _ _ | .instantiated _ _ | .slice _ | .array _ _ | .map _ _ | .chan _ _
  | .func _ | .interface _ => exact fun site h => nomatch h
  | .pointer (.named _) | .pointer (.qualified _ _) | .pointer (.instantiated _ _)
  | .pointer (.pointer _) | .pointer (.slice _) | .pointer (.array _ _) | .pointer (.map _ _)
  | .pointer (.chan _ _) | .pointer (.func _) | .pointer (.interface _) =>
    exact fun site h => nomatch h

end

/-- The fields of a record lead to each of its sites. -/
theorem inRecord_opens {decl : TypeDecl} {site : Site} (h : site ∈ inRecord decl) :
    ∃ fields, decl.recordFields? = some fields ∧ IsReached FieldPath.root [] fields site := by
  unfold inRecord at h
  cases hfields : decl.recordFields? with
  | none => rw [hfields] at h; cases h
  | some fields =>
    rw [hfields] at h
    exact ⟨fields, rfl, inFields_reached _ _ fields (List.Subset.refl _) site h⟩

/-- Every site of a record has a chain from its struct. -/
theorem inRecord_reached {decl : TypeDecl} {site : Site} (h : site ∈ inRecord decl) :
    ∃ fields, decl.recordFields? = some fields ∧
      ∃ chain name, Declares fields (chain ++ [(name, site.type)]) ∧
        site.path.segments = names chain ++ [name] ∧
        site.guards = pointers FieldPath.root chain := by
  obtain ⟨fields, hfields, chain, last, field, name, opens, hfield, hname, htype, -, hpath,
    hguards⟩ := inRecord_opens h
  rw [htype]
  exact ⟨fields, hfields, chain, name, opens.declares hfield hname, hpath, hguards⟩

end Site
end FieldRules
