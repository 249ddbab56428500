/-
How a floating-point number is written: which magnitudes are written out in
full, the sign of an exponent, and the texts of what is no number.
-/
import FieldRules.Number.Shortest

namespace FieldRules
namespace Number

structure Layout where
  /-- Numbers whose leading digit stands at `10 ^ least` or above are written out in full, -/
  least : Int
  /-- up to those whose leading digit stands at `10 ^ most`. -/
  most : Int
  /-- A positive exponent has its sign written. -/
  signed : Bool
  tie : Tie
  nan : String
  infinity : String
  negativeInfinity : String

def zeros (n : Nat) : List Char := List.replicate n '0'

/-- Digits with the point after the first `count` of them; a whole number ends in `.0`. -/
def placePoint (digits : List Char) (count : Int) : List Char :=
  if count ≤ 0 then '0' :: '.' :: (zeros (-count).toNat ++ digits)
  else if (digits.length : Int) ≤ count then
    digits ++ zeros (count.toNat - digits.length) ++ ['.', '0']
  else digits.take count.toNat ++ '.' :: digits.drop count.toNat

namespace Layout

/-- One digit, the others behind a point, and the power of ten. -/
def exponential (layout : Layout) (digits : List Char) (exponent : Int) : List Char :=
  let fraction := match digits.drop 1 with
    | [] => []
    | rest => '.' :: rest
  let sign := if layout.signed && decide (0 ≤ exponent) then ['+'] else []
  digits.take 1 ++ fraction ++ 'e' :: (sign ++ (toString exponent).toList)

def magnitude (layout : Layout) (d : Decimal) : List Char :=
  let digits := (toString d.coefficient).toList
  let exponent := d.power + (digits.length : Int) - 1
  if layout.least ≤ exponent ∧ exponent ≤ layout.most then placePoint digits (exponent + 1)
  else layout.exponential digits exponent

def render (layout : Layout) (x : Float) : String :=
  let bits := x.toBits
  let negative := decide (0x8000000000000000 ≤ bits.toNat)
  let binary := Binary.ofBits bits
  if exponentField bits = topExponent then
    if fractionField bits ≠ 0 then layout.nan
    else if negative then layout.negativeInfinity else layout.infinity
  else
    let sign := if negative then ['-'] else []
    let body := if binary.mantissa = 0 then ['0', '.', '0']
      else layout.magnitude (binary.shortest layout.tie)
    String.ofList (sign ++ body)

end Layout

end Number
end FieldRules
