/-
Lines of a text.

A line ends with a newline, or with a carriage return and a newline; the last
one may end with the text.
-/
import FieldRules.Text.Blank

namespace FieldRules
namespace Text

/-- A line without a carriage return at its end. -/
def trimReturn (line : List Char) : List Char :=
  if line.getLast? = some '\r' then line.dropLast else line

/-- The lines of a text without what ends them. -/
def lines (cs : List Char) : List (List Char) :=
  let pieces := splitAt (· == '\n') cs
  pieces.dropLast.map trimReturn ++
    match pieces.getLast? with
    | some (c :: line) => [c :: line]
    | _ => []

end Text
end FieldRules
