/-
Values of fields, and records of them.

A record keeps its fields in the order in which they were first set.  A field
that is missing reads as the zero value of its kind.
-/
import FieldRules.Json.Basic
import FieldRules.Kind
import FieldRules.Number.Numeral
import FieldRules.Number.Precision

namespace FieldRules

inductive Value where
  | null
  | bool (value : Bool)
  | int (value : Int)
  | float (value : Float)
  | text (value : String)
  | record (fields : List (String × Value))
  deriving Inhabited

/-- Field names and values, in insertion order. -/
abbrev Record := List (String × Value)

namespace Record

def empty : Record := []

def get? (record : Record) (field : String) : Option Value := Json.getMember? field record

def insert (record : Record) (field : String) (value : Value) : Record :=
  Json.setMember field value record

theorem get?_insert_self (record : Record) (field : String) (value : Value) :
    (record.insert field value).get? field = some value :=
  Json.getMember?_setMember_self field value record

theorem get?_insert_ne {field other : String} (h : other ≠ field) (record : Record)
    (value : Value) : (record.insert field value).get? other = record.get? other :=
  Json.getMember?_setMember_ne h value record

end Record

namespace Value

def zero : Kind → Value
  | .integer _ _ => int 0
  | .float _ => float 0
  | .text => text ""
  | .bool => bool false
  | .record _ _ => record []
  | .pointer _ => null
  | .collection => null
  | .foreign => null

mutual

/-- Whether a value is zero; a record is when all its fields are. -/
def isZero : Value → Bool
  | null => true
  | bool value => !value
  | int value => value == 0
  | float value => value == 0
  | text value => value == ""
  | record fields => allZero fields

def allZero : List (String × Value) → Bool
  | [] => true
  | (_, value) :: fields => value.isZero && allZero fields

end

mutual

/-- Equality as programs compute it: a float that is no number differs from itself, and the order
of fields does not count. -/
def same : Value → Value → Bool
  | null, null => true
  | bool a, bool b => a == b
  | int a, int b => a == b
  | float a, float b => a == b
  | text a, text b => a == b
  | record fs, record gs => fs.length == gs.length && fieldsIn fs gs
  | _, _ => false

def fieldsIn : List (String × Value) → List (String × Value) → Bool
  | [], _ => true
  | (name, value) :: fields, others =>
    (match Json.getMember? name others with
      | some other => value.same other
      | none => false) && fieldsIn fields others

end

/-- The value that a field of single precision holds. -/
def toSingle : Value → Value
  | int value => float (Number.ofIntegerSingle value)
  | float value => float (Number.toSingle value)
  | other => other

def text? : Value → Option String
  | text value => some value
  | _ => none

def conforms : Kind → Value → Bool
  | .integer min max, int i => decide (min ≤ i) && decide (i ≤ max)
  | .float _, float _ => true
  | .float _, int _ => true
  | .text, text _ => true
  | .bool, bool _ => true
  | .record _ _, record _ => true
  | .pointer _, null => true
  | .pointer target, value => conforms target value
  | .collection, _ => true
  | .foreign, _ => true
  | _, _ => false

/-- A whole number of 64 bits: as it is where it fits with its sign, and as a double beyond. -/
def ofWhole (value : Int) : Value :=
  if Number.int64Min ≤ value ∧ value ≤ Number.int64Max then int value
  else float (Number.ofInteger value)

mutual

/-- Reads a value from JSON.  There are no arrays in records: the first one ends the reading, with
the names on the way to it. -/
def ofJson (path : List String) : Json → Except (List String) Value
  | .null => .ok null
  | .bool value => .ok (bool value)
  | .integer value => .ok (ofWhole value)
  | .double value => .ok (float value)
  | .text value => .ok (text value)
  | .array _ => .error path
  | .object members => (ofMembers path members).map record

def ofMembers (path : List String) :
    List (String × Json) → Except (List String) (List (String × Value))
  | [] => .ok []
  | (name, json) :: members =>
    match ofJson (path ++ [name]) json with
    | .error at' => .error at'
    | .ok value => (ofMembers path members).map ((name, value) :: ·)

end

/-- What is said of an array in an instance. -/
def arrayMessage (path : List String) : String :=
  "at `" ++ String.intercalate "." path ++ "`: arrays are not supported in record instances"

mutual

def depth : Value → Nat
  | record fields => depthFields fields + 1
  | _ => 0

def depthFields : List (String × Value) → Nat
  | [] => 0
  | (_, value) :: fields => max value.depth (depthFields fields)

end

end Value

end FieldRules
