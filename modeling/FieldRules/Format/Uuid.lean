/-
Universally unique identifiers, in their hyphenated form only.
-/
import FieldRules.Text.Blank
import FieldRules.Text.Letter

namespace FieldRules
namespace Format

open Text

def isHexDigit (c : Char) : Bool :=
  isAsciiDigit c || (decide ('a' ≤ c) && decide (c ≤ 'f')) || (decide ('A' ≤ c) && decide (c ≤ 'F'))

/-- How many digits stand between the hyphens. -/
def uuidGroups : List Nat := [8, 4, 4, 4, 12]

def isUuid (cs : List Char) : Bool :=
  let groups := splitAt (· == '-') cs
  groups.map List.length == uuidGroups && groups.all (·.all isHexDigit)

/-- The same grammar as a pattern for a regular expression matcher. -/
def uuidPattern : String :=
  "^[0-9a-fA-F]\x7b8\x7d-[0-9a-fA-F]\x7b4\x7d-[0-9a-fA-F]\x7b4\x7d-[0-9a-fA-F]\x7b4\x7d-" ++
    "[0-9a-fA-F]\x7b12\x7d$"

end Format
end FieldRules
