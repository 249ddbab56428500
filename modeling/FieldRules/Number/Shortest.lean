/-
The fewest decimal digits that read back to a binary floating-point number.

A finite nonzero number is `mantissa * 2 ^ power`.  The reals that round to it
form an interval whose ends lie halfway to the two neighbours and belong to it
exactly when the mantissa is even.  For one digit, then two, and so on, the two
decimals next to the number are tried; the first count at which one of them lies
in the interval wins, and of two the nearer.  All of it is exact arithmetic on
natural numbers.
-/
namespace FieldRules
namespace Number

/-- A finite nonzero magnitude `mantissa * 2 ^ power`. -/
structure Binary where
  mantissa : Nat
  power : Int
  /-- The gap to the neighbour below is half as wide as the one above. -/
  narrowBelow : Bool

/-- The value `coefficient * 10 ^ power`. -/
structure Decimal where
  coefficient : Nat
  power : Int

/-- Which of two equally near decimals is taken. -/
inductive Tie where
  | up
  | even

/-- Fractions of doubles are counted in parts of this many. -/
def fractionUnits : Nat := 0x10000000000000

/-- The exponent field of infinities and of what is no number. -/
def topExponent : Nat := 0x7ff

def fractionField (bits : UInt64) : Nat := bits.toNat % fractionUnits

def exponentField (bits : UInt64) : Nat := bits.toNat / fractionUnits % (topExponent + 1)

/-- The magnitude of a finite double; zero has mantissa 0. -/
def Binary.ofBits (bits : UInt64) : Binary :=
  let fraction := fractionField bits
  let exponent := exponentField bits
  if exponent = 0 then ⟨fraction, -1074, false⟩
  else ⟨fractionUnits + fraction, (exponent : Int) - 1075, fraction == 0 && decide (1 < exponent)⟩

/-- `base ^ power` as a quotient of naturals. -/
def powerParts (base : Nat) (power : Int) : Nat × Nat :=
  if 0 ≤ power then (Nat.pow base power.toNat, 1) else (1, Nat.pow base (-power).toNat)

/-- Compares `a * 10 ^ power` with `num / den`. -/
def compareScaled (a : Nat) (power : Int) (num den : Nat) : Ordering :=
  let scale := powerParts 10 power
  compare (a * scale.1 * den) (num * scale.2)

namespace Binary

/-- Four times the value, as a quotient. -/
def quarters (b : Binary) : Nat × Nat :=
  let scale := powerParts 2 b.power
  (4 * b.mantissa * scale.1, scale.2)

/-- Four times the two ends of the rounding interval, over the denominator of `quarters`. -/
def ends (b : Binary) : Nat × Nat :=
  let unit := (powerParts 2 b.power).1
  let value := b.quarters.1
  (value - (if b.narrowBelow then unit else 2 * unit), value + 2 * unit)

/-- Whether a decimal rounds to this number. -/
def admits (b : Binary) (d : Decimal) : Bool :=
  let den := b.quarters.2
  let low := compareScaled (4 * d.coefficient) d.power b.ends.1 den
  let high := compareScaled (4 * d.coefficient) d.power b.ends.2 den
  let inclusive := b.mantissa % 2 == 0
  (low == .gt || (low == .eq && inclusive)) && (high == .lt || (high == .eq && inclusive))

def leadingPower (b : Binary) : Int :=
  let value := b.quarters
  let guess : Int := ((toString value.1).length : Int) - ((toString (4 * value.2)).length : Int)
  if compareScaled 4 guess value.1 value.2 == .gt then guess - 1 else guess

/-- The greatest multiple of `10 ^ power` that is at most the value. -/
def floorOn (b : Binary) (power : Int) : Nat :=
  let value := b.quarters
  let scale := powerParts 10 power
  (value.1 * scale.2) / (4 * value.2 * scale.1)

/-- Of the decimals `c` and `c + 1` on one grid, where the value lies between them, the nearer. -/
def nearer (b : Binary) (tie : Tie) (c : Nat) (power : Int) : Nat :=
  match compareScaled (2 * (2 * c + 1)) power b.quarters.1 b.quarters.2, tie with
  | .gt, _ => c
  | .lt, _ => c + 1
  | .eq, .up => c + 1
  | .eq, .even => if c % 2 = 0 then c else c + 1

/-- The best decimal on the grid of `10 ^ power`, if one there reads back. -/
def onGrid? (b : Binary) (tie : Tie) (power : Int) : Option Decimal :=
  let c := b.floorOn power
  match b.admits ⟨c, power⟩, b.admits ⟨c + 1, power⟩ with
  | true, true => some ⟨b.nearer tie c power, power⟩
  | true, false => some ⟨c, power⟩
  | false, true => some ⟨c + 1, power⟩
  | false, false => none

/-- Tries the grids `power`, `power - 1`, and so on. -/
def search (b : Binary) (tie : Tie) : Nat → Int → Option Decimal
  | 0, _ => none
  | n + 1, power =>
    match b.onGrid? tie power with
    | some d => some d
    | none => b.search tie n (power - 1)

/-- The exact value, for a number that no grid of seventeen digits finds. -/
def exact (b : Binary) : Decimal :=
  if 0 ≤ b.power then ⟨b.mantissa * Nat.pow 2 b.power.toNat, 0⟩
  else ⟨b.mantissa * Nat.pow 5 (-b.power).toNat, b.power⟩

end Binary

/-- Drops zeros at the end of the coefficient, at most `n` of them. -/
def Decimal.strip : Nat → Decimal → Decimal
  | 0, d => d
  | n + 1, d =>
    if d.coefficient ≠ 0 ∧ d.coefficient % 10 = 0 then
      Decimal.strip n ⟨d.coefficient / 10, d.power + 1⟩
    else d

/-- The shortest decimal that reads back, with no zero at its end. -/
def Binary.shortest (b : Binary) (tie : Tie) : Decimal :=
  ((b.search tie 17 b.leadingPower).getD b.exact).strip 1100

end Number
end FieldRules
