/-
Names in emitted code, and of the files that hold it.

The error variable of a check is named for its record, its path and its rule.
Segments of the path lose their underscores, so that the last underscore parts
the record from the path; names that meet nevertheless get a number.
-/
import FieldRules.Plan
import FieldRules.Text.Blank
import FieldRules.Text.Case
import FieldRules.Text.Letter

namespace FieldRules
namespace Emission

open Text

/-- Whether a capital starts a new word, seen from the characters beside it. -/
def startsWord (previous next : Option Char) : Bool :=
  match previous with
  | none => false
  | some p => isLower p || isAsciiDigit p || (isUpper p && next.any isLower)

/-- Small letters, with an underscore where a capital started a word. -/
def snakeFrom : Option Char → List Char → List Char
  | _, [] => []
  | previous, c :: cs =>
    (if isUpper c then
      (if startsWord previous cs.head? then ['_'] else []) ++ lowerOf c
    else [c]) ++ snakeFrom (some c) cs

def snakeCase (name : String) : String := String.ofList (snakeFrom none name.toList)

/-- A word with its first character in upper case. -/
def upperFirst : List Char → List Char
  | [] => []
  | c :: cs => upperOf c ++ cs

/-- The words between underscores, each with its first character in upper case. -/
def pascal (segment : String) : List Char :=
  (splitAt (· == '_') segment.toList).flatMap upperFirst

def lowerFirst (s : String) : String :=
  match s.toList with
  | [] => ""
  | c :: cs => String.ofList (lowerOf c ++ cs)

def rulePart : Rule → String
  | .required => "Required"
  | .eq => "Eq"
  | .ne => "Ne"
  | .gte => "Gte"
  | .lte => "Lte"
  | .gt => "Gt"
  | .lt => "Lt"
  | .length => "Length"
  | .minLength => "MinLength"
  | .maxLength => "MaxLength"
  | .email => "Email"
  | .uuid => "UUID"
  | .ipv4 => "IPv4"
  | .ipv6 => "IPv6"
  | .enum => "Enum"

def nilName (record : String) : String := "ErrNil" ++ record

def validateName (record : String) : String := "Validate" ++ record

/-- The name that a check's error variable has unless it is taken. -/
def sentinelBase (record : String) (check : Check) : String :=
  "Err" ++ record ++ "_" ++ String.ofList (check.path.segments.flatMap pascal) ++
    rulePart check.rule ++ "Validation"

/-- The first free name among `base` with the numbers from `n` on, of which it tries `fuel`. -/
def numbered (taken : List String) (base : String) : Nat → Nat → String
  | 0, n => base ++ toString n
  | fuel + 1, n =>
    let name := base ++ toString n
    if taken.contains name then numbered taken base fuel (n + 1) else name

/-- The name itself, or the name with the first number from 2 on that is free.  One more number
than there are names taken is enough. -/
def freeName (taken : List String) (base : String) : String :=
  if taken.contains base then numbered taken base taken.length 2 else base

/-- The error variables of some checks, none for a check that is handed over. -/
def sentinelsFrom (record : String) : List String → List Check → List (Option String)
  | _, [] => []
  | taken, check :: checks =>
    if check.delegate.isSome then none :: sentinelsFrom record taken checks
    else
      let name := freeName taken (sentinelBase record check)
      some name :: sentinelsFrom record (name :: taken) checks

def sentinels (plan : Plan) : List (Option String) :=
  sentinelsFrom plan.record [nilName plan.record] plan.checks

def patternName (record : String) (rule : Rule) : String :=
  lowerFirst record ++ (if rule = .email then "Email" else "UUID") ++ "Regexp"

end Emission
end FieldRules
