/-
Whole JSON values.
-/
import FieldRules.Json.Basic
import FieldRules.Json.Cursor

namespace FieldRules
namespace Json
namespace Reader

mutual

/-- One value; `fuel` bounds the number of characters. -/
def value : Nat → Reader Json
  | 0 => fail .ended
  | fuel + 1 => do
    match ← peekToken with
    | none => failPeeked .ended
    | some c =>
      match c with
      | 'n' => advance *> word ['u', 'l', 'l'] *> pure .null
      | 't' => advance *> word ['r', 'u', 'e'] *> pure (.bool true)
      | 'f' => advance *> word ['a', 'l', 's', 'e'] *> pure (.bool false)
      | '-' => advance *> number true
      | '"' => advance *> (Json.text <$> string)
      | '[' => do
        advance
        match ← peekToken with
        | some ']' => advance *> pure (.array [])
        | _ => items fuel []
      | '{' => do
        advance
        match ← peekToken with
        | some '}' => advance *> pure (.object [])
        | _ => members fuel []
      | _ => if Number.isDigit c then number false else failPeeked .malformed

/-- The items of an array from the next one on, behind those already read, last first. -/
def items : Nat → List Json → Reader Json
  | 0, _ => fail .ended
  | fuel + 1, taken => do
    let item ← value fuel
    match ← peekToken with
    | some ',' => advance *> items fuel (item :: taken)
    | some ']' => advance *> pure (.array (item :: taken).reverse)
    | some _ => failPeeked .malformed
    | none => failPeeked .ended

def members : Nat → List (String × Json) → Reader Json
  | 0, _ => fail .ended
  | fuel + 1, taken => do
    match ← peekToken with
    | some '"' => do
      advance
      let name ← string
      match ← peekToken with
      | some ':' => do
        advance
        let item ← value fuel
        let taken := setMember name item taken
        match ← peekToken with
        | some ',' => advance *> members fuel taken
        | some '}' => advance *> pure (.object taken)
        | some _ => failPeeked .malformed
        | none => failPeeked .ended
      | some _ => failPeeked .malformed
      | none => failPeeked .ended
    | some _ => failPeeked .malformed
    | none => failPeeked .ended

end

end Reader

def ofText? (text : String) : Option Json :=
  let cs := text.toList
  match Reader.value (2 * cs.length + 1) (Cursor.ofText cs) with
  | .ok (json, cursor) =>
    if (cursor.skipWhile Reader.isBlank).rest.isEmpty then some json else none
  | .error _ => none

end Json
end FieldRules
