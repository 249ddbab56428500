/-
The rules that a marker can ask for.
-/
import FieldRules.Kind
import FieldRules.Literal

namespace FieldRules

inductive Rule where
  | required
  | eq
  | ne
  | gte
  | lte
  | gt
  | lt
  | length
  | minLength
  | maxLength
  | email
  | uuid
  | ipv4
  | ipv6
  | enum
  deriving DecidableEq, Repr

/-- What a rule takes behind its `=`. -/
inductive ArgumentShape where
  | none
  /-- A value of the field's own kind. -/
  | fieldTyped
  | count
  /-- Values of the field's own kind, parted by white space. -/
  | list
  deriving DecidableEq, Repr

namespace Rule

def all : List Rule :=
  [required, eq, ne, gte, lte, gt, lt, length, minLength, maxLength, email, uuid, ipv4, ipv6, enum]

/-- The name that plans and messages use. -/
def name : Rule → String
  | required => "required"
  | eq => "eq"
  | ne => "ne"
  | gte => "gte"
  | lte => "lte"
  | gt => "gt"
  | lt => "lt"
  | length => "length"
  | minLength => "minlength"
  | maxLength => "maxlength"
  | email => "email"
  | uuid => "uuid"
  | ipv4 => "ipv4"
  | ipv6 => "ipv6"
  | enum => "enum"

/-- Further spellings. -/
def aliases : Rule → List String
  | gte => ["min"]
  | lte => ["max"]
  | _ => []

/-- Every spelling with its rule, in catalog order. -/
def spellings : List (String × Rule) :=
  all.flatMap fun rule => (rule.name :: rule.aliases).map fun spelling => (spelling, rule)

def ofSpelling? (spelling : String) : Option Rule :=
  (spellings.find? (·.1 == spelling)).map (·.2)

def argumentShape : Rule → ArgumentShape
  | required | email | uuid | ipv4 | ipv6 => .none
  | eq | ne | gte | lte | gt | lt => .fieldTyped
  | length | minLength | maxLength => .count
  | enum => .list

/-- The kinds of fields that a rule can be asked for.  Whether `required` on a record can be
checked is only known once all plans are. -/
def accepts : Rule → Kind → Bool
  | required, kind =>
    match kind with
    | .collection => false
    | .foreign => false
    | _ => true
  | eq, kind | ne, kind | enum, kind => kind.isNumeric || kind == .text
  | gte, kind | lte, kind | gt, kind | lt, kind => kind.isNumeric
  | _, kind => kind == .text

/-- What the rule asks, to follow "field X". -/
def describe (rule : Rule) (argument : Option Literal) : String :=
  let shown := (argument.map Literal.render).getD ""
  match rule with
  | required => "is required"
  | eq => "must equal " ++ shown
  | ne => "must not equal " ++ shown
  | gte => "must be >= " ++ shown
  | lte => "must be <= " ++ shown
  | gt => "must be > " ++ shown
  | lt => "must be < " ++ shown
  | length => "must be exactly " ++ shown ++ " characters long"
  | minLength => "must be at least " ++ shown ++ " characters long"
  | maxLength => "must be at most " ++ shown ++ " characters long"
  | email => "must be a valid email address"
  | uuid => "must be a valid UUID"
  | ipv4 => "must be a valid IPv4 address"
  | ipv6 => "must be a valid IPv6 address"
  | enum => "must be one of [" ++ shown ++ "]"

end Rule

end FieldRules
