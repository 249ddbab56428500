/-
A piece of text on one line with nothing invisible in it, for messages.
-/
import FieldRules.Text.Printable

namespace FieldRules
namespace Text

def codePoint (c : Char) : List Char :=
  '\\' :: 'u' :: '\x7b' :: (Nat.toDigits 16 c.toNat ++ ['\x7d'])

/-- Quotes, backslashes and the usual control characters have short forms; of the rest, what
cannot be shown is given by its code point. -/
def escapedChar (c : Char) : List Char :=
  if c.toNat = 0 then ['\\', '0']
  else if c = '\t' then ['\\', 't']
  else if c = '\r' then ['\\', 'r']
  else if c = '\n' then ['\\', 'n']
  else if c = '\'' then ['\\', '\'']
  else if c = '"' then ['\\', '"']
  else if c = '\\' then ['\\', '\\']
  else if isPrintable c then [c]
  else codePoint c

def escaped (cs : List Char) : List Char := cs.flatMap escapedChar

end Text
end FieldRules
