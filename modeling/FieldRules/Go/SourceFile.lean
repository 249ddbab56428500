/-
A source file: its package and its type declarations.
-/
import FieldRules.Go.TypeExpr

namespace FieldRules
namespace Go

open Text

/-- A declaration `type Name T`, or `type Name = T` for an alias. -/
structure TypeDecl where
  name : String
  /-- Type parameters as they were written, brackets included. -/
  typeParameters : Option String
  isAlias : Bool
  type : TypeExpr
  doc : List Comment
  position : Position

structure SourceFile where
  package : String
  decls : List TypeDecl

namespace TypeDecl

/-- The fields of a record: a struct type declared under its own name, without parameters. -/
def recordFields? (decl : TypeDecl) : Option (List Field) :=
  match decl.type with
  | .struct fields => if decl.isAlias || decl.typeParameters.isSome then none else some fields
  | _ => none

def isRecord (decl : TypeDecl) : Bool := decl.recordFields?.isSome

end TypeDecl

end Go
end FieldRules
