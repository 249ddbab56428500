/-
Reading JSON text: where the reader stands, why it stops, and the parts that all
readers share: blanks, words, numbers and strings.

Marks count lines from one and bytes within a line from zero, so a mark names
the byte just before it.  A reader that stops at a byte it has only looked at
marks the place behind that byte; one that stops after taking a byte marks where
it stands, which is the same place.
-/
import FieldRules.Json.Basic
import FieldRules.Number.Numeral
import FieldRules.Number.Shortest
import FieldRules.Text.Bytes

namespace FieldRules
namespace Json

/-- A place between two bytes. -/
structure Mark where
  line : Nat
  column : Nat
  deriving DecidableEq, Repr

namespace Mark

def first : Mark := ⟨1, 0⟩

def pass (m : Mark) (c : Char) : Mark :=
  if c = '\n' then ⟨m.line + 1, 0⟩ else ⟨m.line, m.column + c.utf8Size⟩

/-- The place behind the first byte of a character. -/
def passByte (m : Mark) (c : Char) : Mark :=
  if c = '\n' then ⟨m.line + 1, 0⟩ else ⟨m.line, m.column + 1⟩

/-- The place `n` bytes on, which may lie inside a character. -/
def passBytes (m : Mark) : List Char → Nat → Mark
  | [], _ => m
  | _, 0 => m
  | c :: cs, n =>
    if c.utf8Size ≤ n then (m.pass c).passBytes cs (n - c.utf8Size)
    else ⟨m.line, m.column + n⟩

end Mark

inductive Fault where
  /-- The text is no JSON. -/
  | malformed
  /-- The text is JSON of another shape. -/
  | mistyped
  /-- The text ends too early. -/
  | ended
  deriving DecidableEq, Repr

structure Failure where
  fault : Fault
  mark : Mark
  deriving DecidableEq, Repr

/-- Where a reader stands, and the text still to be read. -/
structure Cursor where
  mark : Mark
  rest : List Char

abbrev Reader := StateT Cursor (Except Failure)

namespace Cursor

def ofText (cs : List Char) : Cursor := ⟨Mark.first, cs⟩

/-- Behind the next byte, which has only been looked at. -/
def peekMark (cursor : Cursor) : Mark :=
  match cursor.rest with
  | [] => cursor.mark
  | c :: _ => cursor.mark.passByte c

/-- Takes the characters up to the first that does not satisfy `p`. -/
def skipWhile (p : Char → Bool) (cursor : Cursor) : Cursor :=
  ⟨(cursor.rest.takeWhile p).foldl Mark.pass cursor.mark, cursor.rest.dropWhile p⟩

/-- The place of a fault in a text that has ended. -/
def endMark (cursor : Cursor) : Mark := cursor.rest.foldl Mark.pass cursor.mark

end Cursor

namespace Reader

def fail {α : Type} (fault : Fault) : Reader α := fun cursor => .error ⟨fault, cursor.mark⟩

/-- Stops behind a byte that has only been looked at. -/
def failPeeked {α : Type} (fault : Fault) : Reader α := fun cursor =>
  .error ⟨fault, cursor.peekMark⟩

def peek : Reader (Option Char) := fun cursor => .ok (cursor.rest.head?, cursor)

def advance : Reader Unit := fun cursor =>
  match cursor.rest with
  | [] => .ok ((), cursor)
  | c :: cs => .ok ((), ⟨cursor.mark.pass c, cs⟩)

def isBlank (c : Char) : Bool := c == ' ' || c == '\t' || c == '\n' || c == '\r'

/-- Skips blanks and looks at what follows. -/
def peekToken : Reader (Option Char) := fun cursor =>
  let next := cursor.skipWhile isBlank
  .ok (next.rest.head?, next)

/-- The rest of a word, of which the first letter has been taken. -/
def word : List Char → Reader Unit
  | [] => pure ()
  | expected :: more => do
    match ← peek with
    | none => fail .ended
    | some c =>
      if c = expected then do
        advance
        word more
      else failPeeked .malformed

def digits : Reader (List Char) := fun cursor =>
  .ok (cursor.rest.takeWhile Number.isDigit, cursor.skipWhile Number.isDigit)

/-- Reads digits onto a number as long as it fits into 64 bits; the second part is what is left. -/
def gather : Nat → List Char → Nat × List Char
  | n, [] => (n, [])
  | n, c :: cs =>
    let next := 10 * n + Number.digitValue c
    if next < 0x10000000000000000 then gather next cs else (n, c :: cs)

/-- A whole part; digits that do not fit only raise the power of ten. -/
def ofWhole (digits : List Char) : Number.Decimal :=
  let (coefficient, left) := gather 0 digits
  ⟨coefficient, left.length⟩

/-- A fraction behind a whole part; digits that do not fit are dropped. -/
def withFraction (whole : Number.Decimal) (digits : List Char) : Number.Decimal :=
  let (coefficient, left) := gather whole.coefficient digits
  ⟨coefficient, whole.power - ((digits.length - left.length : Nat) : Int)⟩

/-- The greatest power of ten that doubles reach. -/
def topPower : Nat := 308

def powerOfTen (n : Nat) : Float := Number.nearestDouble 1 n

/-- The double that a decimal stands for, unless it leaves the range.  Coefficient and power of
ten are rounded each and then multiplied or divided, so the last bit need not be the nearest; a
power that doubles do not reach is divided by in two steps. -/
def double? (d : Number.Decimal) : Option Float :=
  let coefficient := Number.nearestDouble d.coefficient 0
  if d.coefficient = 0 then some 0
  else if 0 ≤ d.power then
    if topPower < d.power.toNat then none
    else
      let x := coefficient * powerOfTen d.power.toNat
      if x.isInf then none else some x
  else
    let n := (-d.power).toNat
    if n ≤ topPower then some (coefficient / powerOfTen n)
    else if n ≤ 2 * topPower then
      some (coefficient / powerOfTen topPower / powerOfTen (n - topPower))
    else some 0

def signed (negative : Bool) (x : Float) : Json := .double (if negative then -x else x)

def finish (negative : Bool) (d : Number.Decimal) : Reader Json :=
  match double? d with
  | some x => pure (signed negative x)
  | none => fail .malformed

/-- The greatest exponent that is read; a greater one leaves the range of doubles. -/
def exponentMax : Nat := 0x7fffffff

/-- The digits of an exponent as far as it stays readable, and whether it did. -/
def exponentDigits : Nat → List Char → List Char × Bool
  | _, [] => ([], true)
  | n, c :: cs =>
    if Number.isDigit c then
      let next := 10 * n + Number.digitValue c
      if exponentMax < next then ([c], false)
      else
        let (taken, readable) := exponentDigits next cs
        (c :: taken, readable)
    else ([], true)

/-- An exponent behind its letter. -/
def exponent (negative : Bool) (d : Number.Decimal) : Reader Json := do
  let downward ← match ← peek with
    | some '-' => do
      advance
      pure true
    | some '+' => do
      advance
      pure false
    | _ => pure false
  match ← peek with
  | none => fail .ended
  | some c =>
    if Number.isDigit c then do
      let cursor ← get
      let (taken, readable) := exponentDigits 0 cursor.rest
      set ({ mark := taken.foldl Mark.pass cursor.mark,
             rest := cursor.rest.drop taken.length } : Cursor)
      if readable then
        let written : Int := Number.digitsValue taken
        finish negative ⟨d.coefficient, d.power + (if downward then -written else written)⟩
      else if d.coefficient ≠ 0 ∧ !downward then fail .malformed
      else do
        let _ ← digits
        pure (signed negative 0)
    else failPeeked .malformed

/-- A fraction behind its point, and an exponent if one follows. -/
def fraction (negative : Bool) (whole : Number.Decimal) : Reader Json := do
  let part ← digits
  if part.isEmpty then
    match ← peek with
    | none => failPeeked .ended
    | some _ => failPeeked .malformed
  else
    let d := withFraction whole part
    match ← peek with
    | some 'e' => advance *> exponent negative d
    | some 'E' => advance *> exponent negative d
    | _ => finish negative d

/-- What follows the whole part of a number.  Whole numbers of 64 bits are kept as they are, with a
sign down to the least and without one up to the greatest; but for a negative zero. -/
def afterWhole (negative : Bool) (whole : Number.Decimal) : Reader Json := do
  match ← peek with
  | some '.' => advance *> fraction negative whole
  | some 'e' => advance *> exponent negative whole
  | some 'E' => advance *> exponent negative whole
  | _ =>
    let value : Int := if negative then -(whole.coefficient : Int) else whole.coefficient
    let isNegativeZero := negative && whole.coefficient == 0
    if whole.power = 0 ∧ Number.int64Min ≤ value ∧ !isNegativeZero then
      pure (.integer value)
    else finish negative whole

/-- A number behind its sign, if it had one. -/
def number (negative : Bool) : Reader Json := do
  match ← peek with
  | none => fail .ended
  | some c =>
    if c = '0' then do
      advance
      match ← peek with
      | some d => if Number.isDigit d then failPeeked .malformed else afterWhole negative ⟨0, 0⟩
      | none => afterWhole negative ⟨0, 0⟩
    else if Number.isDigit c then do
      let whole ← digits
      afterWhole negative (ofWhole whole)
    else failPeeked .malformed

def hexValue? (c : Char) : Option Nat :=
  if Number.isDigit c then some (Number.digitValue c)
  else if 'a' ≤ c ∧ c ≤ 'f' then some (c.toNat - 'a'.toNat + 10)
  else if 'A' ≤ c ∧ c ≤ 'F' then some (c.toNat - 'A'.toNat + 10)
  else none

def hexUnit : Reader Nat := fun cursor =>
  if Text.byteLength cursor.rest < 4 then .error ⟨.ended, cursor.endMark⟩
  else
    let wrong : Except Failure (Nat × Cursor) :=
      .error ⟨.malformed, cursor.mark.passBytes cursor.rest 4⟩
    match cursor.rest with
    | a :: b :: c :: d :: cs =>
      match hexValue? a, hexValue? b, hexValue? c, hexValue? d with
      | some w, some x, some y, some z =>
        .ok (((w * 16 + x) * 16 + y) * 16 + z, ⟨⟨cursor.mark.line, cursor.mark.column + 4⟩, cs⟩)
      | _, _, _, _ => wrong
    | _ => wrong

def escapePart (expected : Char) : Reader Unit := do
  match ← peek with
  | none => fail .ended
  | some c => if c = expected then advance else failPeeked .malformed

/-- A character written by its 16-bit units, behind `\u`. -/
def unicodeEscape : Reader Char := do
  let high ← hexUnit
  if 0xDC00 ≤ high ∧ high ≤ 0xDFFF then fail .malformed
  else if 0xD800 ≤ high ∧ high ≤ 0xDBFF then do
    escapePart '\\'
    escapePart 'u'
    let low ← hexUnit
    if 0xDC00 ≤ low ∧ low ≤ 0xDFFF then
      pure (Char.ofNat (0x10000 + (high - 0xD800) * 0x400 + (low - 0xDC00)))
    else fail .malformed
  else pure (Char.ofNat high)

/-- An escape behind its backslash. -/
def escape : Reader Char := do
  match ← peek with
  | none => fail .ended
  | some c =>
    match c with
    | '"' => advance *> pure '"'
    | '\\' => advance *> pure '\\'
    | '/' => advance *> pure '/'
    | 'b' => advance *> pure '\x08'
    | 'f' => advance *> pure '\x0c'
    | 'n' => advance *> pure '\n'
    | 'r' => advance *> pure '\r'
    | 't' => advance *> pure '\t'
    | 'u' => advance *> unicodeEscape
    | _ => failPeeked .malformed

/-- The rest of a string behind its opening quote, at most `fuel` characters. -/
def stringBody : Nat → List Char → Reader String
  | 0, _ => fail .ended
  | fuel + 1, taken => do
    match ← peek with
    | none => fail .ended
    | some c =>
      if c = '"' then do
        advance
        pure (String.ofList taken.reverse)
      else if c = '\\' then do
        advance
        let e ← escape
        stringBody fuel (e :: taken)
      else if c.toNat < 0x20 then failPeeked .malformed
      else do
        advance
        stringBody fuel (c :: taken)

def string : Reader String := do
  let cursor ← get
  stringBody (cursor.rest.length + 1) []

end Reader

end Json
end FieldRules
