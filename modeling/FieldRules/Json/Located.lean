/-
Reading a table of numbers from JSON, with the place of what is wrong.

The table is an object of arrays of objects of signed bytes.  A failure carries
the path from the root to the innermost value that was being read when it
happened.  Commas between items and colons belong to the value around them; a
name that cannot be read, with all that stands between it and the member before
it, belongs to a member without a name.
-/
import FieldRules.Json.Basic
import FieldRules.Json.Cursor

namespace FieldRules
namespace Json

inductive Step where
  | name (key : String)
  | index (n : Nat)
  /-- A member of an object whose name could not be read. -/
  | unnamed
  deriving DecidableEq, Repr

/-- The steps from the root, as text; the root itself is a single dot. -/
def renderSteps : List Step → String
  | [] => "."
  | .name key :: steps => key ++ renderMore steps
  | .index n :: steps => "[" ++ toString n ++ "]" ++ renderMore steps
  | .unnamed :: steps => "?" ++ renderMore steps
where
  renderMore : List Step → String
    | [] => ""
    | .name key :: steps => "." ++ key ++ renderMore steps
    | .index n :: steps => "[" ++ toString n ++ "]" ++ renderMore steps
    | .unnamed :: steps => ".?" ++ renderMore steps

structure LocatedFailure where
  path : List Step
  failure : Failure

abbrev Locating := StateT Cursor (Except LocatedFailure)

abbrev Row := List (String × Int)

abbrev Table := List (String × List Row)

namespace Locating

/-- Puts what goes wrong in a plain reader at a path. -/
def locate {α : Type} (path : List Step) (reader : Reader α) : Locating α := fun cursor =>
  match reader cursor with
  | .ok result => .ok result
  | .error failure => .error ⟨path, failure⟩

/-- A value of another kind than the one wanted: it is read as far as its first token goes. -/
def unwanted {α : Type} : Reader α := do
  match ← Reader.peek with
  | none => Reader.failPeeked .malformed
  | some c =>
    match c with
    | 'n' => Reader.advance *> Reader.word ['u', 'l', 'l'] *> Reader.fail .mistyped
    | 't' => Reader.advance *> Reader.word ['r', 'u', 'e'] *> Reader.fail .mistyped
    | 'f' => Reader.advance *> Reader.word ['a', 'l', 's', 'e'] *> Reader.fail .mistyped
    | '-' => Reader.advance *> Reader.number true *> Reader.fail .mistyped
    | '"' => Reader.advance *> Reader.string *> Reader.fail .mistyped
    | '[' => Reader.fail .mistyped
    | '{' => Reader.fail .mistyped
    | _ =>
      if Number.isDigit c then Reader.number false *> Reader.fail .mistyped
      else Reader.failPeeked .malformed

/-- A whole number from -128 to 127. -/
def signedByte : Reader Int := do
  match ← Reader.peekToken with
  | none => Reader.failPeeked .ended
  | some c =>
    if c = '-' ∨ Number.isDigit c then do
      if c = '-' then Reader.advance
      match ← Reader.number (c = '-') with
      | .integer value =>
        if -128 ≤ value ∧ value ≤ 127 then pure value else Reader.fail .mistyped
      | _ => Reader.fail .mistyped
    else unwanted

def openWith (bracket : Char) : Reader Unit := do
  match ← Reader.peekToken with
  | none => Reader.failPeeked .ended
  | some c => if c = bracket then Reader.advance else unwanted

/-- The next name of an object, or nothing at the closing brace. -/
def nextName (isFirst : Bool) : Reader (Option String) := do
  match ← Reader.peekToken with
  | none => Reader.failPeeked .ended
  | some '}' => Reader.advance *> pure none
  | some c => do
    if !isFirst then
      if c = ',' then Reader.advance else Reader.failPeeked .malformed
    match ← Reader.peekToken with
    | none => Reader.failPeeked .ended
    | some '"' => do
      Reader.advance
      some <$> Reader.string
    | some _ => Reader.failPeeked .malformed

def colon : Reader Unit := do
  match ← Reader.peekToken with
  | some ':' => Reader.advance
  | some _ => Reader.failPeeked .malformed
  | none => Reader.failPeeked .ended

/-- Whether an array has a further item, which then comes next. -/
def nextItem (isFirst : Bool) : Reader Bool := do
  match ← Reader.peekToken with
  | none => Reader.failPeeked .ended
  | some ']' => Reader.advance *> pure false
  | some c => do
    if isFirst then pure true
    else if c = ',' then do
      Reader.advance
      match ← Reader.peekToken with
      | some ']' => Reader.failPeeked .malformed
      | some _ => pure true
      | none => Reader.failPeeked .ended
    else Reader.failPeeked .malformed

/-- The members of an object, each read by `entry` at its own path. -/
def objectMembers {α : Type} (path : List Step) (entry : List Step → Locating α) :
    Nat → Bool → List (String × α) → Locating (List (String × α))
  | 0, _, taken => pure taken
  | fuel + 1, isFirst, taken => do
    match ← locate (path ++ [.unnamed]) (nextName isFirst) with
    | none => pure taken
    | some name => do
      locate path colon
      let value ← entry (path ++ [.name name])
      objectMembers path entry fuel false (setMember name value taken)

/-- The items of an array, each read by `entry` at its own path. -/
def arrayItems {α : Type} (path : List Step) (entry : List Step → Locating α) :
    Nat → Nat → Locating (List α)
  | 0, _ => pure []
  | fuel + 1, index => do
    if ← locate path (nextItem (index == 0)) then do
      let value ← entry (path ++ [.index index])
      let rest ← arrayItems path entry fuel (index + 1)
      pure (value :: rest)
    else pure []

def object {α : Type} (entry : List Step → Locating α) (path : List Step) :
    Locating (List (String × α)) := do
  locate path (openWith '{')
  let cursor ← get
  objectMembers path entry (cursor.rest.length + 1) true []

def array {α : Type} (entry : List Step → Locating α) (path : List Step) : Locating (List α) := do
  locate path (openWith '[')
  let cursor ← get
  arrayItems path entry (cursor.rest.length + 1) 0

def table : Locating Table :=
  object (array (object fun path => locate path signedByte)) []

end Locating

/-- Reads a table; text behind it is not looked at. -/
def tableOfText (text : String) : Except LocatedFailure Table :=
  (Locating.table (Cursor.ofText text.toList)).map (·.1)

end Json
end FieldRules
