/-
Markers where they occur in a record.

Fields are met in declaration order; a declaration of several names counts once
for each.  The fields of an anonymous struct follow the field that has it as its
type, with a longer path.  Behind a pointer to an anonymous struct the pointer
guards them: it must not be nil for anything below it to be looked at.
-/
import FieldRules.FieldPath
import FieldRules.Marker
import FieldRules.Go.SourceFile

namespace FieldRules

open Go

/-- A marker line in its place. -/
structure Occurrence where
  path : FieldPath
  /-- The pointers above the field, outermost first. -/
  guards : List FieldPath
  type : TypeExpr
  reading : Except Malformed Marker

namespace Occurrence

/-- The marker lines of one field under one of its names. -/
def ofName (path : FieldPath) (guards : List FieldPath) (type : TypeExpr) (doc : List Comment) :
    List Occurrence :=
  (Marker.ofDoc doc).map fun reading => ⟨path, guards, type, reading⟩

mutual

/-- The marker lines of some fields that stand below `parent`. -/
def inFields (parent : FieldPath) (guards : List FieldPath) : List Field → List Occurrence
  | [] => []
  | field :: fields => inField parent guards field ++ inFields parent guards fields

def inField (parent : FieldPath) (guards : List FieldPath) : Field → List Occurrence
  | ⟨names, _, type, _, doc, _⟩ => names.flatMap fun name =>
      ofName (parent.child name) guards type doc ++ inType (parent.child name) guards type

/-- The marker lines inside the type of the field at `path`. -/
def inType (path : FieldPath) (guards : List FieldPath) : TypeExpr → List Occurrence
  | .struct fields => inFields path guards fields
  | .pointer (.struct fields) => inFields path (guards ++ [path]) fields
  | _ => []

end

def inRecord (decl : TypeDecl) : List Occurrence :=
  match decl.recordFields? with
  | some fields => inFields FieldPath.root [] fields
  | none => []

end Occurrence

end FieldRules
