/-
Type expressions of Go, with the fields of their struct types.

`render` writes a type as Go source on one line.  `same` is identity of types as
Go has it: names, types and tags of fields count, their comments and places do
not.
-/
import FieldRules.Text.Position

namespace FieldRules
namespace Go

open Text

structure Comment where
  /-- The text without its delimiters. -/
  text : String
  /-- The place of its first delimiter. -/
  position : Position
  deriving DecidableEq, Repr

inductive ChanDirection where
  | both
  | send
  | receive
  deriving DecidableEq, Repr

mutual

inductive TypeExpr where
  | named (name : String)
  | qualified (package : String) (name : String)
  /-- A generic type with its arguments as they were written, brackets included. -/
  | instantiated (base : TypeExpr) (arguments : String)
  | pointer (target : TypeExpr)
  | slice (element : TypeExpr)
  | array (length : String) (element : TypeExpr)
  | map (key : TypeExpr) (value : TypeExpr)
  | chan (direction : ChanDirection) (element : TypeExpr)
  | struct (fields : List Field)
  /-- A function type as it was written. -/
  | func (text : String)
  /-- An interface type as it was written. -/
  | interface (text : String)

/-- One field declaration, which may declare several names. -/
structure Field where
  names : List String
  /-- The name is that of the type. -/
  embedded : Bool
  type : TypeExpr
  /-- The tag with its quotes. -/
  tag : Option String
  doc : List Comment
  position : Position

end

instance : Inhabited TypeExpr := ⟨.named ""⟩

namespace TypeExpr

mutual

def render : TypeExpr → String
  | named name => name
  | qualified package name => package ++ "." ++ name
  | instantiated base arguments => base.render ++ arguments
  | pointer target => "*" ++ target.render
  | slice element => "[]" ++ element.render
  | array length element => "[" ++ length ++ "]" ++ element.render
  | map key value => "map[" ++ key.render ++ "]" ++ value.render
  | chan .both element => "chan " ++ element.render
  | chan .send element => "chan<- " ++ element.render
  | chan .receive element => "<-chan " ++ element.render
  | struct [] => "struct\x7b\x7d"
  | struct (field :: fields) =>
    "struct \x7b " ++ renderField field ++ renderMore fields ++ " \x7d"
  | func text => text
  | interface text => text

def renderField : Field → String
  | ⟨names, embedded, type, tag, _, _⟩ =>
    (if embedded then "" else String.intercalate ", " names ++ " ") ++ type.render ++
      match tag with
      | some tag => " " ++ tag
      | none => ""

def renderMore : List Field → String
  | [] => ""
  | field :: fields => "; " ++ renderField field ++ renderMore fields

end

mutual

def same : TypeExpr → TypeExpr → Bool
  | named m, named n => m == n
  | qualified p m, qualified q n => p == q && m == n
  | instantiated a x, instantiated b y => a.same b && x == y
  | pointer a, pointer b => a.same b
  | slice a, slice b => a.same b
  | array m a, array n b => m == n && a.same b
  | map k a, map l b => k.same l && a.same b
  | chan d a, chan e b => d == e && a.same b
  | struct fs, struct gs => sameFields fs gs
  | func s, func t => s == t
  | interface s, interface t => s == t
  | _, _ => false

def sameField : Field → Field → Bool
  | ⟨ns, e, a, t, _, _⟩, ⟨ms, f, b, u, _, _⟩ => ns == ms && e == f && a.same b && t == u

def sameFields : List Field → List Field → Bool
  | [], [] => true
  | f :: fs, g :: gs => sameField f g && sameFields fs gs
  | _, _ => false

end

end TypeExpr

end Go
end FieldRules
