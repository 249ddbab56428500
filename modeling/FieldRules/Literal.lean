/-
Arguments of rules once they have a type.
-/
import FieldRules.Number.Layout
import FieldRules.Number.Precision

namespace FieldRules

inductive Literal where
  | int (value : Int)
  | float (value : Float)
  | text (value : String)
  | count (value : Nat)
  | list (items : List Literal)
  deriving Inhabited

namespace Literal

/-- Doubles have the fewest digits, are written out in full from 1e-4 up to 1e16, and always show
that they are no whole numbers. -/
def floatLayout : Number.Layout where
  least := -4
  most := 15
  signed := false
  tie := .up
  nan := "NaN"
  infinity := "inf"
  negativeInfinity := "-inf"

mutual

/-- The text that stands in messages; items of a list are parted by blanks. -/
def render : Literal → String
  | int value => toString value
  | float value => floatLayout.render value
  | text value => value
  | count value => toString value
  | list items => renderItems items

def renderItems : List Literal → String
  | [] => ""
  | [item] => item.render
  | item :: items => item.render ++ " " ++ renderItems items

end

mutual

/-- What a field of single precision is compared with: numbers are rounded. -/
def toSingle : Literal → Literal
  | int value => float (Number.ofIntegerSingle value)
  | float value => float (Number.toSingle value)
  | text value => text value
  | count value => count value
  | list items => list (toSingleItems items)

def toSingleItems : List Literal → List Literal
  | [] => []
  | item :: items => item.toSingle :: toSingleItems items

end

end Literal

end FieldRules
