/-
The files below a working directory.

A place is the list of names that lead there, behind as many steps up as it
takes.  The tree lists places with what stands there.  The working directory and
those above it are always there; of what else lies above, a tree knows only what
was put there.
-/
import FieldRules.Sorted

namespace FieldRules
namespace Files

abbrev Place := List String

inductive Content where
  | text (value : String)
  /-- Bytes that are not UTF-8. -/
  | binary (bytes : List UInt8)
  deriving DecidableEq, Repr

namespace Content

def decode? (bytes : List UInt8) : Option String := String.fromUTF8? ⟨bytes.toArray⟩

def ofBytes (bytes : List UInt8) : Content := ((decode? bytes).map text).getD (binary bytes)

/-- The first line; none if that is not UTF-8. -/
def firstLine? : Content → Option String
  | text value =>
    some (String.ofList (value.toList.takeWhile (· != '\n')))
  | binary bytes => decode? (bytes.takeWhile (· != 10))

end Content

inductive Entry where
  | directory
  | file (content : Content)
  deriving DecidableEq, Repr

structure Tree where
  entries : List (Place × Entry)

namespace Tree

def empty : Tree := ⟨[]⟩

/-- Whether a place is the working directory or one above it. -/
def isAbove (place : Place) : Bool := place.all (· == "..")

/-- What stands at a place among some. -/
def lookup (place : Place) : List (Place × Entry) → Option Entry
  | [] => none
  | entry :: entries => if entry.1 = place then some entry.2 else lookup place entries

def at? (tree : Tree) (place : Place) : Option Entry :=
  if isAbove place then some .directory else lookup place tree.entries

/-- Puts an entry at a place, in front of those that come later. -/
def insert (place : Place) (entry : Entry) : List (Place × Entry) → List (Place × Entry)
  | [] => [(place, entry)]
  | other :: entries =>
    if other.1 = place then (place, entry) :: entries else other :: insert place entry entries

def set (tree : Tree) (place : Place) (entry : Entry) : Tree :=
  ⟨insert place entry tree.entries⟩

def erase (tree : Tree) (place : Place) : Tree :=
  ⟨tree.entries.filter fun entry => entry.1 != place⟩

/-- Takes away what stands at a place and all below it. -/
def prune (tree : Tree) (place : Place) : Tree :=
  ⟨tree.entries.filter fun entry => !place.isPrefixOf entry.1⟩

/-- The name of an entry that stands directly below a place. -/
def childName? (place : Place) (entry : Place × Entry) : Option String :=
  if entry.1.dropLast = place then entry.1.getLast? else none

/-- The names directly below a place, in ascending order. -/
def children (tree : Tree) (place : Place) : List String :=
  sortBy (fun a b => !decide (b < a)) (tree.entries.filterMap (childName? place))

theorem lookup_insert_self (place : Place) (entry : Entry) (entries : List (Place × Entry)) :
    lookup place (insert place entry entries) = some entry := by
  induction entries with
  | nil => simp [insert, lookup]
  | cons other entries ih =>
    unfold insert
    split
    · simp [lookup]
    · next h => simp [lookup, h, ih]

theorem lookup_insert_ne {place other : Place} (h : other ≠ place) (entry : Entry)
    (entries : List (Place × Entry)) :
    lookup other (insert place entry entries) = lookup other entries := by
  induction entries with
  | nil => simp [insert, lookup, Ne.symm h]
  | cons first entries ih =>
    unfold insert
    split
    · next hp => simp [lookup, hp, Ne.symm h]
    · simp [lookup, ih]

theorem lookup_filter_ne {place other : Place} (h : other ≠ place) (entries : List (Place × Entry)) :
    lookup other (entries.filter fun entry => entry.1 != place) = lookup other entries := by
  induction entries with
  | nil => rfl
  | cons first entries ih =>
    by_cases hp : first.1 = place
    · simp [hp, ih, lookup, Ne.symm h]
    · simp [hp, ih, lookup]

theorem lookup_filter_self (place : Place) (entries : List (Place × Entry)) :
    lookup place (entries.filter fun entry => entry.1 != place) = none := by
  induction entries with
  | nil => rfl
  | cons first entries ih =>
    by_cases hp : first.1 = place
    · simp [hp, ih]
    · simp [hp, ih, lookup]

theorem at?_set_self {place : Place} (h : isAbove place = false) (tree : Tree) (entry : Entry) :
    (tree.set place entry).at? place = some entry := by
  simp [at?, set, h, lookup_insert_self]

theorem at?_set_ne {place other : Place} (h : other ≠ place) (tree : Tree) (entry : Entry) :
    (tree.set place entry).at? other = tree.at? other := by
  simp [at?, set, lookup_insert_ne h]

theorem at?_erase_self {place : Place} (h : isAbove place = false) (tree : Tree) :
    (tree.erase place).at? place = none := by
  simp [at?, erase, h, lookup_filter_self]

theorem at?_erase_ne {place other : Place} (h : other ≠ place) (tree : Tree) :
    (tree.erase place).at? other = tree.at? other := by
  simp [at?, erase, lookup_filter_ne h]

end Tree
end Files
end FieldRules
