/-
Typing the argument of a marker for a rule and the kind of a field.
-/
import FieldRules.Number.Numeral
import FieldRules.Text.Blank
import FieldRules.Rule

namespace FieldRules

open Text

inductive ArgumentError where
  | unexpected (rule : Rule)
  | missing (rule : Rule)
  | empty
  | notInteger (raw : String)
  | outOfRange (value min max : Int)
  | notNumber (raw : String)
  | floatOverflow (raw : String) (bits : Nat)
  | notCount (raw : String)
  /-- Fields of this kind take no typed argument. -/
  | untypable (kind : Kind)
  deriving DecidableEq, Repr

def ArgumentError.message : ArgumentError → String
  | unexpected rule => "rule `" ++ rule.name ++ "` takes no argument"
  | missing rule =>
    "rule `" ++ rule.name ++ "` requires an argument (`" ++ rule.name ++ "=<value>`)"
  | empty => "argument must not be empty"
  | notInteger raw => "`" ++ raw ++ "` is not a base-10 integer"
  | outOfRange value min max =>
    toString value ++ " is out of range for this field (" ++ toString min ++ "..=" ++
      toString max ++ ")"
  | notNumber raw => "`" ++ raw ++ "` is not a finite decimal number"
  | floatOverflow raw bits => "`" ++ raw ++ "` overflows a float" ++ toString bits ++ " field"
  | notCount raw => "`" ++ raw ++ "` is not a non-negative integer"
  | untypable kind => "a " ++ kind.describe ++ " field cannot carry a typed argument"

namespace Argument

def integer (raw : List Char) (min max : Int) : Except ArgumentError Literal :=
  match Number.integer? (trim raw) with
  | none => .error (.notInteger (String.ofList raw))
  | some value =>
    if value < min ∨ max < value then .error (.outOfRange value min max) else .ok (.int value)

/-- A finite number; in single precision it must not exceed the greatest one. -/
def float (raw : List Char) (bits : Nat) : Except ArgumentError Literal :=
  match Number.double? (trim raw) with
  | none => .error (.notNumber (String.ofList raw))
  | some value =>
    if bits == 32 && decide (Number.singleMax < value.abs) then
      .error (.floatOverflow (String.ofList raw) bits)
    else if value.isFinite then .ok (.float value)
    else .error (.notNumber (String.ofList raw))

/-- A value of a field's kind.  Text is taken as it is. -/
def scalar (kind : Kind) (raw : List Char) : Except ArgumentError Literal :=
  match kind with
  | .integer min max => integer raw min max
  | .float bits => float raw bits
  | .text => .ok (.text (String.ofList raw))
  | other => .error (.untypable other)

def count (raw : List Char) : Except ArgumentError Literal :=
  match Number.count? (trim raw) with
  | none => .error (.notCount (String.ofList raw))
  | some n => .ok (.count n)

/-- Types each item of a list; the first that fails decides. -/
def scalars (kind : Kind) : List (List Char) → Except ArgumentError (List Literal)
  | [] => .ok []
  | raw :: raws =>
    match scalar kind raw with
    | .error e => .error e
    | .ok item => (scalars kind raws).map (item :: ·)

/-- The argument of a rule that takes one. -/
def present (rule : Rule) (raw : List Char) (kind : Kind) : Except ArgumentError (Option Literal) :=
  if isAllBlank raw then .error .empty
  else
    match rule.argumentShape with
    | .none => .error (.unexpected rule)
    | .fieldTyped => (scalar kind raw).map some
    | .count => (count raw).map some
    | .list => (scalars kind (words raw)).map fun items => some (.list items)

end Argument

/-- Types what follows the `=` of a marker, if anything does. -/
def typeArgument (rule : Rule) (raw : Option String) (kind : Kind) :
    Except ArgumentError (Option Literal) :=
  match rule.argumentShape, raw with
  | .none, none => .ok none
  | .none, some _ => .error (.unexpected rule)
  | _, none => .error (.missing rule)
  | _, some raw => Argument.present rule raw.toList kind

end FieldRules
