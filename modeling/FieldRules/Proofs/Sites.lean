/-
The fields of a record, and the marker lines above them.

A site is a field under one of its names, where the walk through a record meets
it.  Occurrences of markers are then the marker lines of the sites in turn
(`inRecord_eq_sites`): what the walk adds to a marker depends on the site alone.
A marker line is any line of a comment that starts with `+govalid:`, white space
and a gutter apart, whether it can be read or not.
-/
import FieldRules.Occurrence

namespace FieldRules

open Go Text

/-- A field under one of its names. -/
structure Site where
  path : FieldPath
  /-- The pointers above the field, outermost first. -/
  guards : List FieldPath
  type : TypeExpr
  doc : List Comment

namespace Site

mutual

/-- The sites of some fields that stand below `parent`. -/
def inFields (parent : FieldPath) (guards : List FieldPath) : List Field → List Site
  | [] => []
  | field :: fields => inField parent guards field ++ inFields parent guards fields

def inField (parent : FieldPath) (guards : List FieldPath) : Field → List Site
  | ⟨names, _, type, _, doc, _⟩ => names.flatMap fun name =>
      ⟨parent.child name, guards, type, doc⟩ :: inType (parent.child name) guards type

/-- The sites inside the type of the field at `path`. -/
def inType (path : FieldPath) (guards : List FieldPath) : TypeExpr → List Site
  | .struct fields => inFields path guards fields
  | .pointer (.struct fields) => inFields path (guards ++ [path]) fields
  | _ => []

end

theorem recordFields?_type {decl : TypeDecl} {fields : List Field}
    (h : decl.recordFields? = some fields) : decl.type = .struct fields := by
  unfold TypeDecl.recordFields? at h
  split at h
  · next htype =>
    split at h
    · cases h
    · cases h
      exact htype
  · cases h

def inRecord (decl : TypeDecl) : List Site :=
  match decl.recordFields? with
  | some fields => inFields FieldPath.root [] fields
  | none => []

def occurrences (site : Site) : List Occurrence :=
  Occurrence.ofName site.path site.guards site.type site.doc

mutual

theorem inFields_occurrences (parent : FieldPath) (guards : List FieldPath) (fields : List Field) :
    Occurrence.inFields parent guards fields =
      (inFields parent guards fields).flatMap occurrences := by
  match fields with
  | [] => rfl
  | field :: fields =>
    rw [Occurrence.inFields, inFields, List.flatMap_append,
      inField_occurrences parent guards field, inFields_occurrences parent guards fields]

theorem inField_occurrences (parent : FieldPath) (guards : List FieldPath) (field : Field) :
    Occurrence.inField parent guards field =
      (inField parent guards field).flatMap occurrences := by
  match field with
  | ⟨names, _, type, _, doc, _⟩ =>
    rw [Occurrence.inField, inField, List.flatMap_assoc]
    congr 1
    funext name
    rw [List.flatMap_cons, inType_occurrences (parent.child name) guards type]
    rfl

theorem inType_occurrences (path : FieldPath) (guards : List FieldPath) (type : TypeExpr) :
    Occurrence.inType path guards type = (inType path guards type).flatMap occurrences := by
  match type with
  | .struct fields => exact inFields_occurrences path guards fields
  | .pointer (.struct fields) => exact inFields_occurrences path (guards ++ [path]) fields
  | .named _ | .qualified _ _ | .instantiated _ _ | .slice _ | .array _ _ | .map _ _ | .chan _ _
  | .func _ | .interface _ => rfl
  | .pointer (.named _) | .pointer (.qualified _ _) | .pointer (.instantiated _ _)
  | .pointer (.pointer _) | .pointer (.slice _) | .pointer (.array _ _) | .pointer (.map _ _)
  | .pointer (.chan _ _) | .pointer (.func _) | .pointer (.interface _) => rfl

end

/-- The occurrences of markers in a record are those of its sites. -/
theorem inRecord_occurrences (decl : TypeDecl) :
    Occurrence.inRecord decl = (inRecord decl).flatMap occurrences := by
  unfold Occurrence.inRecord inRecord
  cases decl.recordFields? with
  | none => rfl
  | some fields => exact inFields_occurrences FieldPath.root [] fields

end Site

/-! ### Marker lines -/

namespace Marker

def placeOf : Except Malformed Marker → Position
  | .ok marker => marker.position
  | .error bad => bad.position

/-- Whether a line of a comment is meant as a marker. -/
def isMarkerLine (index : Nat) (line : List Char) : Bool :=
  markerStart.isPrefixOf (lineBody index line)

/-- The place of what is left of a line. -/
def placeOnLine (comment : Position) (index : Nat) (line : List Char) : Position :=
  linePosition comment index (line.length - (lineBody index line).length)

/-- The places of the marker lines of a comment. -/
def placesIn (comment : Comment) : List Position :=
  ((splitAt (· == '\n') comment.text.toList).zipIdx.filter fun (line, index) =>
    isMarkerLine index line).map fun (line, index) => placeOnLine comment.position index line

theorem behind?_isSome (start text : List Char) :
    (behind? start text).isSome = start.isPrefixOf text := by
  induction start generalizing text with
  | nil => cases text <;> rfl
  | cons p ps ih =>
    cases text with
    | nil => rfl
    | cons c cs =>
      rw [behind?, List.isPrefixOf]
      by_cases h : p = c
      · rw [if_pos h, ih, beq_iff_eq.2 h, Bool.true_and]
      · rw [if_neg h, beq_eq_false_iff_ne.2 h, Bool.false_and, Option.isSome_none]

theorem placeOf_parse (text : List Char) (position : Position) :
    placeOf (parse text position) = position := by
  unfold parse
  cases read text with
  | error fault => rfl
  | ok found => rfl

theorem onLine?_map (comment : Position) (index : Nat) (line : List Char) :
    (onLine? comment index line).map placeOf =
      if isMarkerLine index line then some (placeOnLine comment index line) else none := by
  unfold onLine? isMarkerLine placeOnLine
  rw [← behind?_isSome]
  split <;> rename_i h <;> simp [h, placeOf_parse]

theorem onLines_map (comment : Position) (index : Nat) (lines : List (List Char)) :
    (onLines comment index lines).map placeOf =
      ((lines.zipIdx index).filter fun (line, i) => isMarkerLine i line).map fun (line, i) =>
        placeOnLine comment i line := by
  induction lines generalizing index with
  | nil => rfl
  | cons line lines ih =>
    have here := onLine?_map comment index line
    rw [onLines, List.map_append, ih, List.zipIdx_cons, List.filter_cons]
    cases hline : onLine? comment index line with
    | none =>
      rw [hline] at here
      split at here
      · cases here
      · next h => simp [h]
    | some reading =>
      rw [hline] at here
      split at here
      · next h =>
        have hplace : placeOf reading = placeOnLine comment index line := Option.some.inj here
        simp [h, hplace]
      · cases here

/-- Every marker line of a doc comment makes one reading, at its place. -/
theorem ofDoc_places (doc : List Comment) : (ofDoc doc).map placeOf = doc.flatMap placesIn := by
  unfold ofDoc
  rw [List.map_flatMap]
  congr 1
  funext comment
  exact onLines_map comment.position 0 _

end Marker

end FieldRules
