/-
Reading numbers: whole numbers in base ten with bounds, and decimal fractions
with an optional exponent, rounded to the nearest double.
-/
namespace FieldRules
namespace Number

def isDigit (c : Char) : Bool := decide ('0' ≤ c) && decide (c ≤ '9')

def digitValue (c : Char) : Nat := c.toNat - '0'.toNat

/-- The number that some digits write in base ten. -/
def digitsValue (cs : List Char) : Nat := cs.foldl (fun n c => 10 * n + digitValue c) 0

/-- A nonempty row of digits. -/
def natural? (cs : List Char) : Option Nat :=
  if cs.isEmpty || !cs.all isDigit then none else some (digitsValue cs)

/-- Splits off a leading sign; the first part says whether it was a minus. -/
def takeSign : List Char → Bool × List Char
  | '-' :: cs => (true, cs)
  | '+' :: cs => (false, cs)
  | cs => (false, cs)

def int64Min : Int := -0x8000000000000000

def int64Max : Int := 0x7fffffffffffffff

/-- A signed whole number of 64 bits; either sign may be written. -/
def integer? (cs : List Char) : Option Int :=
  let (negative, digits) := takeSign cs
  match natural? digits with
  | none => none
  | some n =>
    let value : Int := if negative then -(n : Int) else n
    if int64Min ≤ value ∧ value ≤ int64Max then some value else none

/-- A count of 64 bits; a plus may be written. -/
def count? (cs : List Char) : Option Nat :=
  let digits := match cs with
    | '+' :: rest => rest
    | _ => cs
  match natural? digits with
  | none => none
  | some n => if n < 0x10000000000000000 then some n else none

/-- The double nearest to `coefficient * 10 ^ exponent`.  Magnitudes far outside the range are
settled by the position of their leading digit, so that no huge power is computed. -/
def nearestDouble (coefficient : Nat) (exponent : Int) : Float :=
  let top := ((toString coefficient).length : Int) + exponent
  if coefficient = 0 then 0
  else if top < -400 then 0
  else if 400 < top then 1 / 0
  else if 0 ≤ exponent then Float.ofScientific coefficient false exponent.toNat
  else Float.ofScientific coefficient true (-exponent).toNat

/-- An exponent after its letter: an optional sign and at least one digit. -/
def exponent? (cs : List Char) : Option Int :=
  let (negative, digits) := takeSign cs
  (natural? digits).map fun n => if negative then -(n : Int) else n

/-- Digits with an optional point and an optional exponent; one digit at least before the
exponent. -/
def fraction? (cs : List Char) : Option Float :=
  let whole := cs.takeWhile isDigit
  let afterWhole := cs.dropWhile isDigit
  let (part, rest) := match afterWhole with
    | '.' :: more => (more.takeWhile isDigit, more.dropWhile isDigit)
    | _ => ([], afterWhole)
  if whole.isEmpty && part.isEmpty then none
  else
    let coefficient := digitsValue (whole ++ part)
    let shift : Int := -(part.length : Int)
    match rest with
    | [] => some (nearestDouble coefficient shift)
    | c :: more =>
      if c == 'e' || c == 'E' then
        (exponent? more).map fun e => nearestDouble coefficient (e + shift)
      else none

def asciiLower (c : Char) : Char :=
  if decide ('A' ≤ c) && decide (c ≤ 'Z') then Char.ofNat (c.toNat + 32) else c

def infinityNames : List String := ["inf", "infinity"]

/-- A double: an optional sign, then a fraction, an infinity, or `nan`, in any case. -/
def double? (cs : List Char) : Option Float :=
  let (negative, body) := takeSign cs
  let name := String.ofList (body.map asciiLower)
  let magnitude := if infinityNames.contains name then some (1 / 0)
    else if name == "nan" then some (0 / 0)
    else fraction? body
  magnitude.map fun x => if negative then -x else x

end Number
end FieldRules
