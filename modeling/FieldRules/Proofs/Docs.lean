/-
Comments do not count for types.

`mapDocs` changes the doc comments of all fields and nothing else.  A type is
written, compared and resolved to a kind as before, and the sites of a record are
the same with other comments.
-/
import FieldRules.Kind.Resolution
import FieldRules.Proofs.Sites

namespace FieldRules

open Go Text

namespace Go

namespace TypeExpr

mutual

/-- A type with other doc comments above its fields. -/
def mapDocs (f : List Comment → List Comment) : TypeExpr → TypeExpr
  | instantiated base arguments => instantiated (base.mapDocs f) arguments
  | pointer target => pointer (target.mapDocs f)
  | slice element => slice (element.mapDocs f)
  | array length element => array length (element.mapDocs f)
  | map key value => map (key.mapDocs f) (value.mapDocs f)
  | chan direction element => chan direction (element.mapDocs f)
  | struct fields => struct (mapDocsOf f fields)
  | other => other

def mapDocsIn (f : List Comment → List Comment) : Field → Field
  | ⟨names, embedded, type, tag, doc, position⟩ =>
    ⟨names, embedded, type.mapDocs f, tag, f doc, position⟩

def mapDocsOf (f : List Comment → List Comment) : List Field → List Field
  | [] => []
  | field :: fields => mapDocsIn f field :: mapDocsOf f fields

end

variable (f : List Comment → List Comment)

mutual

theorem mapDocs_render (t : TypeExpr) : (t.mapDocs f).render = t.render := by
  match t with
  | named _ | qualified _ _ | func _ | interface _ => rfl
  | instantiated base _ => rw [mapDocs, render, render, base.mapDocs_render]
  | pointer target => rw [mapDocs, render, render, target.mapDocs_render]
  | slice element => rw [mapDocs, render, render, element.mapDocs_render]
  | array _ element => rw [mapDocs, render, render, element.mapDocs_render]
  | map key value => rw [mapDocs, render, render, key.mapDocs_render, value.mapDocs_render]
  | chan .both element => rw [mapDocs, render, render, element.mapDocs_render]
  | chan .send element => rw [mapDocs, render, render, element.mapDocs_render]
  | chan .receive element => rw [mapDocs, render, render, element.mapDocs_render]
  | struct [] => rfl
  | struct (field :: fields) =>
    rw [mapDocs, mapDocsOf, render, render, mapDocsIn_render field, mapDocsOf_render fields]

theorem mapDocsIn_render (field : Field) : renderField (mapDocsIn f field) = renderField field := by
  match field with
  | ⟨_, _, type, _, _, _⟩ =>
    unfold mapDocsIn renderField
    simp only [type.mapDocs_render]

theorem mapDocsOf_render (fields : List Field) :
    renderMore (mapDocsOf f fields) = renderMore fields := by
  match fields with
  | [] => rfl
  | field :: fields =>
    rw [mapDocsOf, renderMore, renderMore, mapDocsIn_render field, mapDocsOf_render fields]

end

end TypeExpr

/-- A declaration with other doc comments above its fields. -/
def TypeDecl.mapDocs (f : List Comment → List Comment) (decl : TypeDecl) : TypeDecl :=
  { decl with type := decl.type.mapDocs f }

def SourceFile.mapDocs (f : List Comment → List Comment) (file : SourceFile) : SourceFile :=
  { file with decls := file.decls.map (TypeDecl.mapDocs f) }

theorem TypeDecl.mapDocs_recordFields? (f : List Comment → List Comment) (decl : TypeDecl) :
    (decl.mapDocs f).recordFields? = decl.recordFields?.map (TypeExpr.mapDocsOf f) := by
  unfold recordFields? mapDocs
  cases decl.type with
  | struct fields =>
    simp only [TypeExpr.mapDocs]
    split <;> rfl
  | _ => rfl

theorem TypeDecl.mapDocs_isRecord (f : List Comment → List Comment) (decl : TypeDecl) :
    (decl.mapDocs f).isRecord = decl.isRecord := by
  unfold isRecord
  rw [mapDocs_recordFields?, Option.isSome_map]

theorem SourceFile.mapDocs_records (f : List Comment → List Comment) (file : SourceFile) :
    (file.mapDocs f).decls.filter (·.isRecord) =
      (file.decls.filter (·.isRecord)).map (TypeDecl.mapDocs f) := by
  unfold mapDocs
  rw [List.filter_map]
  congr 1
  exact List.filter_congr fun decl _ => decl.mapDocs_isRecord f

end Go

/-! ### Kinds -/

namespace Kind

variable (f : List Comment → List Comment)

theorem declaration?_mapDocs (decls : List TypeDecl) (name : String) :
    declaration? (decls.map (TypeDecl.mapDocs f)) name =
      (declaration? decls name).map (TypeDecl.mapDocs f) := by
  unfold declaration?
  rw [← List.map_reverse, List.find?_map]
  rfl

mutual

theorem comparableWith_mapDocs (named : String → Bool) (t : TypeExpr) :
    comparableWith named (t.mapDocs f) = comparableWith named t := by
  match t with
  | .array _ element => exact comparableWith_mapDocs named element
  | .struct fields => exact comparableFields_mapDocs named fields
  | .named _ | .qualified _ _ | .instantiated _ _ | .pointer _ | .slice _ | .map _ _ | .chan _ _
  | .func _ | .interface _ => rfl

theorem comparableField_mapDocs (named : String → Bool) (field : Field) :
    comparableField named (TypeExpr.mapDocsIn f field) = comparableField named field := by
  match field with
  | ⟨_, _, type, _, _, _⟩ => exact comparableWith_mapDocs named type

theorem comparableFields_mapDocs (named : String → Bool) (fields : List Field) :
    comparableFields named (TypeExpr.mapDocsOf f fields) = comparableFields named fields := by
  match fields with
  | [] => rfl
  | field :: fields =>
    rw [TypeExpr.mapDocsOf, comparableFields, comparableFields, comparableField_mapDocs named field,
      comparableFields_mapDocs named fields]

end

theorem comparableName_mapDocs (decls : List TypeDecl) (depth : Nat) (visiting : List String)
    (name : String) : comparableName (decls.map (TypeDecl.mapDocs f)) depth visiting name =
      comparableName decls depth visiting name := by
  induction depth generalizing visiting name with
  | zero => rfl
  | succ depth ih =>
    rw [comparableName, comparableName, declaration?_mapDocs]
    cases declaration? decls name with
    | none => rfl
    | some decl =>
      have named : comparableName (decls.map (TypeDecl.mapDocs f)) depth (name :: visiting) =
        comparableName decls depth (name :: visiting) := funext (ih (name :: visiting))
      simp only [Option.map_some, named]
      split
      · rfl
      · exact comparableWith_mapDocs f _ decl.type

theorem isComparable_mapDocs (decls : List TypeDecl) (visiting : List String) (t : TypeExpr) :
    isComparable (decls.map (TypeDecl.mapDocs f)) visiting (t.mapDocs f) =
      isComparable decls visiting t := by
  unfold isComparable fullDepth
  rw [comparableWith_mapDocs, List.length_map]
  congr 1
  exact funext (comparableName_mapDocs f decls _ visiting)

theorem kindWith_mapDocs (named : String → Kind) {comparable before : TypeExpr → Bool}
    (same : ∀ t, comparable (t.mapDocs f) = before t) (t : TypeExpr) :
    kindWith named comparable (t.mapDocs f) = kindWith named before t := by
  match t with
  | .struct fields => exact congrArg (record none) (same (.struct fields))
  | .pointer target => exact congrArg pointer (kindWith_mapDocs named same target)
  | .named _ | .qualified _ _ | .instantiated _ _ | .slice _ | .array _ _ | .map _ _ | .chan _ _
  | .func _ | .interface _ => rfl

theorem declaredKind_mapDocs (decl : TypeDecl) (kind : Kind) :
    declaredKind (decl.mapDocs f) kind = declaredKind decl kind := by
  cases kind <;> try rfl
  next name comparable =>
    unfold declaredKind TypeDecl.mapDocs
    cases decl.type <;> cases name <;> rfl

theorem kindOfName_mapDocs (decls : List TypeDecl) (depth : Nat) (visiting : List String)
    (name : String) : kindOfName (decls.map (TypeDecl.mapDocs f)) depth visiting name =
      kindOfName decls depth visiting name := by
  induction depth generalizing visiting name with
  | zero => rfl
  | succ depth ih =>
    rw [kindOfName, kindOfName, declaration?_mapDocs]
    cases declaration? decls name with
    | none => rfl
    | some decl =>
      have named : kindOfName (decls.map (TypeDecl.mapDocs f)) depth (name :: visiting) =
        kindOfName decls depth (name :: visiting) := funext (ih (name :: visiting))
      have inside := kindWith_mapDocs f (kindOfName decls depth (name :: visiting))
        (isComparable_mapDocs f decls (name :: visiting)) decl.type
      simp only [Option.map_some, named, declaredKind_mapDocs]
      simp only [TypeDecl.mapDocs, inside]

/-- The kind of a type does not depend on comments. -/
theorem ofType_mapDocs (decls : List TypeDecl) (t : TypeExpr) :
    ofType (decls.map (TypeDecl.mapDocs f)) (t.mapDocs f) = ofType decls t := by
  unfold ofType fullDepth
  rw [List.length_map, kindWith_mapDocs f _ (isComparable_mapDocs f decls [])]
  congr 1
  exact funext (kindOfName_mapDocs f decls _ [])

end Kind

/-! ### Sites -/

namespace Site

variable (f : List Comment → List Comment)

/-- A site with other doc comments. -/
def mapDocs (site : Site) : Site :=
  { site with type := site.type.mapDocs f, doc := f site.doc }

mutual

theorem inFields_mapDocs (parent : FieldPath) (guards : List FieldPath) (fields : List Field) :
    inFields parent guards (TypeExpr.mapDocsOf f fields) =
      (inFields parent guards fields).map (mapDocs f) := by
  match fields with
  | [] => rfl
  | field :: fields =>
    rw [TypeExpr.mapDocsOf, inFields, inFields, List.map_append,
      inField_mapDocs parent guards field, inFields_mapDocs parent guards fields]

theorem inField_mapDocs (parent : FieldPath) (guards : List FieldPath) (field : Field) :
    inField parent guards (TypeExpr.mapDocsIn f field) =
      (inField parent guards field).map (mapDocs f) := by
  match field with
  | ⟨names, _, type, _, doc, _⟩ =>
    rw [TypeExpr.mapDocsIn, inField, inField, List.map_flatMap]
    congr 1
    funext name
    rw [List.map_cons, inType_mapDocs (parent.child name) guards type]
    rfl

theorem inType_mapDocs (path : FieldPath) (guards : List FieldPath) (type : TypeExpr) :
    inType path guards (type.mapDocs f) = (inType path guards type).map (mapDocs f) := by
  match type with
  | .struct fields => exact inFields_mapDocs path guards fields
  | .pointer (.struct fields) => exact inFields_mapDocs path (guards ++ [path]) fields
  | .named _ | .qualified _ _ | .instantiated _ _ | .slice _ | .array _ _ | .map _ _ | .chan _ _
  | .func _ | .interface _ => rfl
  | .pointer (.named _) | .pointer (.qualified _ _) | .pointer (.instantiated _ _)
  | .pointer (.pointer _) | .pointer (.slice _) | .pointer (.array _ _) | .pointer (.map _ _)
  | .pointer (.chan _ _) | .pointer (.func _) | .pointer (.interface _) => rfl

end

theorem inRecord_mapDocs (decl : TypeDecl) :
    inRecord (decl.mapDocs f) = (inRecord decl).map (mapDocs f) := by
  unfold inRecord
  rw [decl.mapDocs_recordFields? f]
  cases decl.recordFields? with
  | none => rfl
  | some fields => exact inFields_mapDocs f FieldPath.root [] fields

end Site

end FieldRules
