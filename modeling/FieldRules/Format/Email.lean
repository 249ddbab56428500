/-
Addresses of electronic mail: a local part, an `@`, and dot-separated labels.
-/
import FieldRules.Text.Blank
import FieldRules.Text.Letter

namespace FieldRules
namespace Format

open Text

def isAlphanumeric (c : Char) : Bool := isAsciiLetter c || isAsciiDigit c

/-- Marks that a local part may hold beside letters and digits. -/
def localMarks : List Char := ".!#$%&'*+/=?^_`\x7b|\x7d~-".toList

def isLocalChar (c : Char) : Bool := isAlphanumeric c || localMarks.contains c

/-- A label: 1 to 63 letters, digits and hyphens, with no hyphen at either end. -/
def isLabel (label : List Char) : Bool :=
  decide (label.length ≤ 63) && label.all (fun c => isAlphanumeric c || c == '-') &&
    label.head?.any isAlphanumeric && label.getLast?.any isAlphanumeric

def isEmail (cs : List Char) : Bool :=
  !(cs.takeWhile isLocalChar).isEmpty &&
    match cs.dropWhile isLocalChar with
    | '@' :: domain => (splitAt (· == '.') domain).all isLabel
    | _ => false

/-- The same grammar as a pattern for a regular expression matcher. -/
def emailPattern : String :=
  "^[a-zA-Z0-9.!#$%&'*+/=?^_`\x7b|\x7d~-]+@[a-zA-Z0-9](?:[a-zA-Z0-9-]\x7b0,61\x7d[a-zA-Z0-9])?" ++
    "(?:\\.[a-zA-Z0-9](?:[a-zA-Z0-9-]\x7b0,61\x7d[a-zA-Z0-9])?)*$"

end Format
end FieldRules
