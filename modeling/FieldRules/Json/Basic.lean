/-
JSON values.

A number is a whole number of 64 bits, with a sign or without one, where its text
is one and it fits, and a double otherwise.  Members keep the order of their names;
a repeated name keeps its place and takes the later value.
-/
namespace FieldRules

inductive Json where
  | null
  | bool (value : Bool)
  | integer (value : Int)
  | double (value : Float)
  | text (value : String)
  | array (items : List Json)
  | object (members : List (String × Json))
  deriving Inhabited

namespace Json

/-- Gives a name a value: in place where the name is there, at the end where it is not. -/
def setMember {α : Type} (name : String) (value : α) : List (String × α) → List (String × α)
  | [] => [(name, value)]
  | entry :: entries =>
    if entry.1 = name then (name, value) :: entries
    else entry :: setMember name value entries

def getMember? {α : Type} (name : String) : List (String × α) → Option α
  | [] => none
  | entry :: entries => if entry.1 = name then some entry.2 else getMember? name entries

variable {α : Type}

theorem getMember?_setMember_self (name : String) (value : α) (entries : List (String × α)) :
    getMember? name (setMember name value entries) = some value := by
  induction entries with
  | nil => simp [setMember, getMember?]
  | cons entry entries ih =>
    unfold setMember
    split
    · simp [getMember?]
    · next h => simp [getMember?, h, ih]

theorem getMember?_setMember_ne {name other : String} (h : other ≠ name) (value : α)
    (entries : List (String × α)) :
    getMember? other (setMember name value entries) = getMember? other entries := by
  induction entries with
  | nil => simp [setMember, getMember?, Ne.symm h]
  | cons entry entries ih =>
    unfold setMember
    split
    · next he => simp [getMember?, he, Ne.symm h]
    · simp [getMember?, ih]

/-- A member of an object; nothing has members but an object. -/
def member? (name : String) : Json → Option Json
  | object members => getMember? name members
  | _ => none

end Json

end FieldRules
