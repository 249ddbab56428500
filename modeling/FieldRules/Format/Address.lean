/-
Addresses of the internet protocol.

Version 4 is four decimal numbers from 0 to 255 without leading zeros, joined by
dots.  Version 6 is eight groups of one to four hexadecimal digits joined by
colons; a `::` stands for one group of zeros or more, once at most, and a
version 4 address may stand for the last two groups.
-/
import FieldRules.Number.Numeral
import FieldRules.Format.Uuid

namespace FieldRules
namespace Format

open Text

/-- A number from 0 to 255 without leading zeros. -/
def isOctet (cs : List Char) : Bool :=
  match Number.natural? cs with
  | none => false
  | some n => decide (n ≤ 255) && decide (cs.length ≤ 3) && (cs.head? != some '0' || cs.length == 1)

def isIpv4 (cs : List Char) : Bool :=
  let octets := splitAt (· == '.') cs
  octets.length == 4 && octets.all isOctet

def isHexGroup (cs : List Char) : Bool :=
  decide (1 ≤ cs.length) && decide (cs.length ≤ 4) && cs.all isHexDigit

/-- How many groups some pieces stand for; the last piece may be a version 4 address where
`dotted` allows it. -/
def groupCount? (dotted : Bool) : List (List Char) → Option Nat
  | [] => some 0
  | [piece] =>
    if isHexGroup piece then some 1
    else if dotted && isIpv4 piece then some 2
    else none
  | piece :: pieces =>
    if isHexGroup piece then (groupCount? dotted pieces).map (· + 1) else none

/-- The groups on one side of a `::`, where there may be none. -/
def sideCount? (dotted : Bool) (cs : List Char) : Option Nat :=
  if cs.isEmpty then some 0 else groupCount? dotted (splitAt (· == ':') cs)

/-- The text before the first `::` and the text behind it. -/
def cutDoubleColon : List Char → Option (List Char × List Char)
  | [] => none
  | c :: cs =>
    match c, cs with
    | ':', ':' :: rest => some ([], rest)
    | _, _ => (cutDoubleColon cs).map fun (before, rest) => (c :: before, rest)

def isIpv6 (cs : List Char) : Bool :=
  match cutDoubleColon cs with
  | none => groupCount? true (splitAt (· == ':') cs) == some 8
  | some (before, rest) =>
    match sideCount? false before, sideCount? true rest with
    | some m, some n => decide (m + n ≤ 7)
    | _, _ => false

end Format
end FieldRules
