/-
Paths as text.

A path is cut at its slashes.  Segments that are empty or a single dot name
nothing and fall away wherever a path is taken apart; only a dot at the front is
kept, since `./a` and `a` are shown differently.
-/
import FieldRules.Text.Blank

namespace FieldRules
namespace Files
namespace Path

open Text

def segments (path : String) : List String :=
  (splitAt (· == '/') path.toList).map String.ofList

def ofSegments (segments : List String) : String := String.intercalate "/" segments

/-- Whether a segment names nothing. -/
def isIdle (segment : String) : Bool := segment == "" || segment == "."

/-- Segments up to the last one that names something. -/
def trimIdle (segments : List String) : List String :=
  (segments.reverse.dropWhile isIdle).reverse

/-- The segments that a lookup goes through. -/
def names (path : String) : List String := (segments path).filter (· != "")

def startsWithSlash (path : String) : Bool := path.toList.head? == some '/'

/-- Whether a path ends with a slash, which only directories may. -/
def endsWithSlash (path : String) : Bool := path.toList.getLast? == some '/'

/-- The path without its last name; none if it has no name. -/
def parent? (path : String) : Option String :=
  match segments path with
  | "." :: rest =>
    if (trimIdle rest).isEmpty then some ""
    else some (ofSegments ("." :: trimIdle (trimIdle rest).dropLast))
  | all =>
    if (trimIdle all).isEmpty then none
    else some (ofSegments (trimIdle (trimIdle all).dropLast))

/-- The last name of a path; none if the path goes up instead. -/
def fileName? (path : String) : Option String :=
  (trimIdle (segments path)).getLast?.filter (· != "..")

def join (path more : String) : String :=
  if startsWithSlash more then more
  else if path.isEmpty || endsWithSlash path then path ++ more
  else path ++ "/" ++ more

/-- Whether a path names the working directory by a dot. -/
def isHere (path : String) : Bool :=
  match segments path with
  | "." :: rest => (trimIdle rest).isEmpty
  | _ => false

end Path
end Files
end FieldRules
