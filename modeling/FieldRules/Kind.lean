/-
Kinds of fields: what a rule is checked against.
-/
namespace FieldRules

inductive Kind where
  | integer (min max : Int)
  | float (bits : Nat)
  | text
  | bool
  /-- A struct; an anonymous one has no name. -/
  | record (name : Option String) (comparable : Bool)
  | pointer (target : Kind)
  | collection
  /-- A type of which nothing is known. -/
  | foreign
  deriving DecidableEq, Repr, Inhabited

namespace Kind

def describe : Kind → String
  | integer _ _ => "integer"
  | float _ => "floating-point"
  | text => "string"
  | bool => "bool"
  | record (some _) _ => "struct"
  | record none _ => "anonymous struct"
  | pointer _ => "pointer"
  | collection => "collection"
  | foreign => "opaque type"

def isNumeric : Kind → Bool
  | integer _ _ => true
  | float _ => true
  | _ => false

/-- The whole numbers of `bits` bits with a sign. -/
def signed (bits : Nat) : Kind :=
  integer (-(Nat.pow 2 (bits - 1) : Nat)) ((Nat.pow 2 (bits - 1) : Nat) - 1)

/-- The whole numbers of `bits` bits without a sign. -/
def unsigned (bits : Nat) : Kind := integer 0 ((Nat.pow 2 bits : Nat) - 1)

/-- Kinds of the predeclared types.  The upper half of the widest unsigned integers cannot be
written in a rule and is left out. -/
def predeclared? : String → Option Kind
  | "int" => some (signed 64)
  | "int64" => some (signed 64)
  | "int32" => some (signed 32)
  | "rune" => some (signed 32)
  | "int16" => some (signed 16)
  | "int8" => some (signed 8)
  | "uint" => some (unsigned 63)
  | "uint64" => some (unsigned 63)
  | "uintptr" => some (unsigned 63)
  | "uint32" => some (unsigned 32)
  | "uint16" => some (unsigned 16)
  | "uint8" => some (unsigned 8)
  | "byte" => some (unsigned 8)
  | "float32" => some (float 32)
  | "float64" => some (float 64)
  | "string" => some text
  | "bool" => some bool
  | _ => none

end Kind

end FieldRules
