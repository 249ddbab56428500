/-
JSON text, on one line or indented.

Quotes, backslashes and control characters are escaped and everything else is
written as it is; doubles have the fewest digits, are written out in full from
1e-5 up to 1e16, and are `null` when they are no number.
-/
import FieldRules.Json.Basic
import FieldRules.Number.Layout

namespace FieldRules
namespace Json

/-- Fewest digits, written out from 1e-5 up to 1e16, with the sign of any other exponent. -/
def doubleLayout : Number.Layout where
  least := -5
  most := 15
  signed := true
  tie := .even
  nan := "null"
  infinity := "null"
  negativeInfinity := "null"

def hexDigit (n : Nat) : Char :=
  if n < 10 then Char.ofNat ('0'.toNat + n) else Char.ofNat ('a'.toNat + (n - 10))

/-- A character inside a JSON string. -/
def escapeChar (c : Char) : List Char :=
  if c = '"' then ['\\', '"']
  else if c = '\\' then ['\\', '\\']
  else if c = '\n' then ['\\', 'n']
  else if c = '\r' then ['\\', 'r']
  else if c = '\t' then ['\\', 't']
  else if c = '\x08' then ['\\', 'b']
  else if c = '\x0c' then ['\\', 'f']
  else if c.toNat < 0x20 then
    ['\\', 'u', '0', '0', hexDigit (c.toNat / 16), hexDigit (c.toNat % 16)]
  else [c]

def quote (s : String) : String :=
  String.ofList ('"' :: (s.toList.flatMap escapeChar ++ ['"']))

mutual

/-- JSON on one line, without blanks. -/
def compact : Json → String
  | null => "null"
  | bool true => "true"
  | bool false => "false"
  | integer value => toString value
  | double value => doubleLayout.render value
  | text value => quote value
  | array items => "[" ++ compactItems items ++ "]"
  | object members => "\x7b" ++ compactMembers members ++ "\x7d"

def compactItems : List Json → String
  | [] => ""
  | [item] => compact item
  | item :: items => compact item ++ "," ++ compactItems items

def compactMembers : List (String × Json) → String
  | [] => ""
  | [(name, value)] => quote name ++ ":" ++ compact value
  | (name, value) :: members =>
    quote name ++ ":" ++ compact value ++ "," ++ compactMembers members

end

/-- A new line indented by two blanks a level. -/
def newLine (level : Nat) : String := String.ofList ('\n' :: List.replicate (2 * level) ' ')

mutual

/-- JSON with every item and member on a line of its own. -/
def pretty (level : Nat) : Json → String
  | array [] => "[]"
  | array items => "[" ++ prettyItems (level + 1) items ++ newLine level ++ "]"
  | object [] => "\x7b\x7d"
  | object members =>
    "\x7b" ++ prettyMembers (level + 1) members ++ newLine level ++ "\x7d"
  | null => "null"
  | bool true => "true"
  | bool false => "false"
  | integer value => toString value
  | double value => doubleLayout.render value
  | text value => quote value

def prettyItems (level : Nat) : List Json → String
  | [] => ""
  | [item] => newLine level ++ pretty level item
  | item :: items => newLine level ++ pretty level item ++ "," ++ prettyItems level items

def prettyMembers (level : Nat) : List (String × Json) → String
  | [] => ""
  | [(name, value)] => newLine level ++ quote name ++ ": " ++ pretty level value
  | (name, value) :: members =>
    newLine level ++ quote name ++ ": " ++ pretty level value ++ "," ++
      prettyMembers level members

end

end Json
end FieldRules
