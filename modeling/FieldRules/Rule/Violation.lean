/-
When a value breaks a rule.

Numbers are compared as doubles as soon as one of the two is one.  Values of
different kinds, and floats that are no numbers, have no order: they are not
equal, and neither below nor above.
-/
import FieldRules.Format.Address
import FieldRules.Format.Email
import FieldRules.Format.Uuid
import FieldRules.Rule
import FieldRules.Value

namespace FieldRules
namespace Rule

/-- The order of two doubles, if they have one. -/
def orderFloats (x y : Float) : Option Ordering :=
  if x < y then some .lt
  else if x == y then some .eq
  else if y < x then some .gt
  else none

def orderTexts (s t : String) : Ordering :=
  if s == t then .eq else if s < t then .lt else .gt

/-- The order of a value and an argument, if they have one. -/
def order : Value → Literal → Option Ordering
  | .int v, .int l => some (compare v l)
  | .int v, .float l => orderFloats (Number.ofInteger v) l
  | .float v, .float l => orderFloats v l
  | .float v, .int l => orderFloats v (Number.ofInteger l)
  | .text v, .text l => some (orderTexts v l)
  | _, _ => none

/-- Whether text in a value satisfies `p`; other values do not. -/
def textIs (p : List Char → Bool) (value : Value) : Bool :=
  match value.text? with
  | some s => p s.toList
  | none => false

def characters? (value : Value) : Option Nat := value.text?.map (·.toList.length)

def count? : Option Literal → Option Nat
  | some (.count n) => some n
  | _ => none

def violated (rule : Rule) (value : Value) (argument : Option Literal) : Bool :=
  let order := argument.bind (order value)
  match rule with
  | required => value.isZero
  | eq => order != some .eq
  | ne => order == some .eq
  | gte => order == some .lt
  | lte => order == some .gt
  | gt => order == some .lt || order == some .eq
  | lt => order == some .gt || order == some .eq
  | length => characters? value != count? argument
  | minLength =>
    match characters? value, count? argument with
    | some c, some n => decide (c < n)
    | _, _ => false
  | maxLength =>
    match characters? value, count? argument with
    | some c, some n => decide (n < c)
    | _, _ => false
  | email => !textIs Format.isEmail value
  | uuid => !textIs Format.isUuid value
  | ipv4 => !textIs Format.isIpv4 value
  | ipv6 => !textIs Format.isIpv6 value
  | enum =>
    match argument with
    | some (.list items) => !items.any fun item => Rule.order value item == some .eq
    | _ => true

end Rule
end FieldRules
