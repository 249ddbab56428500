/-
From types to kinds, through the declarations of one file.

A declared name has the kind of the type it stands for; what is declared
elsewhere is foreign.  Names may run in circles: the names being resolved are
kept in `visiting`, and meeting one of them again ends the search.  Each step
into a declaration visits a further declared name, so a depth of one more than
the number of declarations is never used up.
-/
import FieldRules.Go.SourceFile
import FieldRules.Kind

namespace FieldRules
namespace Kind

open Go

/-- The declaration of a name; of several the last. -/
def declaration? (decls : List TypeDecl) (name : String) : Option TypeDecl :=
  decls.reverse.find? (·.name == name)

mutual

/-- Whether values of a type can be compared for equality, where `named` answers for names. -/
def comparableWith (named : String → Bool) : TypeExpr → Bool
  | .slice _ => false
  | .map _ _ => false
  | .func _ => false
  | .array _ element => comparableWith named element
  | .struct fields => comparableFields named fields
  | .named name => named name
  | _ => true

def comparableField (named : String → Bool) : Field → Bool
  | ⟨_, _, type, _, _, _⟩ => comparableWith named type

def comparableFields (named : String → Bool) : List Field → Bool
  | [] => true
  | field :: fields => comparableField named field && comparableFields named fields

end

/-- Whether values of a declared name can be compared. -/
def comparableName (decls : List TypeDecl) : Nat → List String → String → Bool
  | 0, _, _ => true
  | depth + 1, visiting, name =>
    match declaration? decls name with
    | none => true
    | some decl =>
      if visiting.contains name then true
      else comparableWith (comparableName decls depth (name :: visiting)) decl.type

def fullDepth (decls : List TypeDecl) : Nat := decls.length + 1

/-- Whether values of a type can be compared, with some names being resolved. -/
def isComparable (decls : List TypeDecl) (visiting : List String) (type : TypeExpr) : Bool :=
  comparableWith (comparableName decls (fullDepth decls) visiting) type

/-- The kind of a type, where `named` answers for names and `comparable` for structs. -/
def kindWith (named : String → Kind) (comparable : TypeExpr → Bool) : TypeExpr → Kind
  | .named name => named name
  | .struct fields => record none (comparable (.struct fields))
  | .pointer target => pointer (kindWith named comparable target)
  | .slice _ => collection
  | .array _ _ => collection
  | .map _ _ => collection
  | .chan _ _ => collection
  | .qualified _ _ => foreign
  | .instantiated _ _ => foreign
  | .func _ => foreign
  | .interface _ => foreign

/-- The kind that a declaration gives its name: a struct is a record of that name, and so is a
record that is declared anew and not as an alias. -/
def declaredKind (decl : TypeDecl) : Kind → Kind
  | record name comparable =>
    match decl.type, name with
    | .struct _, _ => record (some decl.name) comparable
    | _, some other => record (some (if decl.isAlias then other else decl.name)) comparable
    | _, none => record none comparable
  | kind => kind

/-- The kind of a name.  Declarations of the file hide predeclared types; generic types are
foreign. -/
def kindOfName (decls : List TypeDecl) : Nat → List String → String → Kind
  | 0, _, _ => foreign
  | depth + 1, visiting, name =>
    match declaration? decls name with
    | none => (predeclared? name).getD foreign
    | some decl =>
      if decl.typeParameters.isSome || visiting.contains name then foreign
      else
        let inside := name :: visiting
        declaredKind decl
          (kindWith (kindOfName decls depth inside) (isComparable decls inside) decl.type)

def ofType (decls : List TypeDecl) (type : TypeExpr) : Kind :=
  kindWith (kindOfName decls (fullDepth decls) []) (isComparable decls []) type

end Kind
end FieldRules
