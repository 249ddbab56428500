/-
Patterns for names of files.

`?` stands for a character, `*` for any number of them, `[abc]` and `[a-z]` for
one of some and `[!abc]` for any other.  `**` stands for directories, however
deep, and must be all there is between two slashes.
-/
namespace FieldRules
namespace Files

inductive PatternFault where
  | tooManyStars
  | starsInName
  | badRange
  deriving DecidableEq, Repr

/-- What is wrong with a pattern, and before which character, counted from zero. -/
structure PatternError where
  fault : PatternFault
  position : Nat
  deriving DecidableEq, Repr

def PatternFault.describe : PatternFault → String
  | tooManyStars => "wildcards are either regular `*` or recursive `**`"
  | starsInName => "recursive wildcards must form a single path component"
  | badRange => "invalid range pattern"

def PatternError.message (e : PatternError) : String :=
  "Pattern syntax error near position " ++ toString e.position ++ ": " ++ e.fault.describe

/-- First and last character of a run. -/
abbrev CharRange := Char × Char

inductive Wildcard where
  | char (c : Char)
  | anyChar
  | anyText
  | anyDirectories
  | oneOf (ranges : List CharRange)
  | noneOf (ranges : List CharRange)
  deriving DecidableEq, Repr

namespace Wildcard

/-- The runs that a class in brackets lists. -/
def ranges : List Char → List CharRange
  | first :: '-' :: last :: more => (first, last) :: ranges more
  | c :: more => (c, c) :: ranges more
  | [] => []

/-- The inside of a class and what follows it.  A bracket that comes first does not close it. -/
def takeClass? : List Char → Option (List Char × List Char)
  | [] => none
  | first :: more =>
    if more.contains ']' then
      some (first :: more.takeWhile (· != ']'), (more.dropWhile (· != ']')).drop 1)
    else none

/-- The class behind an opening bracket, and what follows it. -/
def readClass? : List Char → Option (Wildcard × List Char)
  | '!' :: cs => (takeClass? cs).map fun (inside, rest) => (noneOf (ranges inside), rest)
  | cs => (takeClass? cs).map fun (inside, rest) => (oneOf (ranges inside), rest)

/-- Puts a wildcard in front of those that follow. -/
def andThen (w : Wildcard) :
    Except PatternError (List Wildcard) → Except PatternError (List Wildcard)
  | .error e => .error e
  | .ok ws => .ok (w :: ws)

/-- Reads a pattern from a position on; `previous` is the character before it and `fuel` bounds
the number of characters. -/
def readFrom : Nat → Nat → Option Char → List Char → Except PatternError (List Wildcard)
  | 0, _, _, _ => .ok []
  | _, _, _, [] => .ok []
  | fuel + 1, position, _, '?' :: cs =>
    anyChar.andThen (readFrom fuel (position + 1) (some '?') cs)
  | fuel + 1, position, previous, '*' :: cs =>
    match cs with
    | '*' :: '*' :: _ => .error ⟨.tooManyStars, position + 2⟩
    | '*' :: rest =>
      if previous.all (· == '/') then
        match rest with
        | [] => .ok [anyDirectories]
        | '/' :: more => anyDirectories.andThen (readFrom fuel (position + 3) (some '/') more)
        | _ => .error ⟨.starsInName, position + 2⟩
      else .error ⟨.starsInName, position - 1⟩
    | _ => anyText.andThen (readFrom fuel (position + 1) (some '*') cs)
  | fuel + 1, position, _, '[' :: cs =>
    match readClass? cs with
    | none => .error ⟨.badRange, position⟩
    | some (w, rest) =>
      w.andThen (readFrom fuel (position + 1 + (cs.length - rest.length)) (some ']') rest)
  | fuel + 1, position, _, c :: cs =>
    (char c).andThen (readFrom fuel (position + 1) (some c) cs)

def read (pattern : List Char) : Except PatternError (List Wildcard) :=
  readFrom pattern.length 0 none pattern

def inRanges (ranges : List CharRange) (c : Char) : Bool :=
  ranges.any fun (first, last) => decide (first ≤ c) && decide (c ≤ last)

/-- Whether a wildcard stands for one character and for this one. -/
def takes : Wildcard → Char → Bool
  | char c, d => c == d
  | anyChar, _ => true
  | oneOf ranges, c => inRanges ranges c
  | noneOf ranges, c => !inRanges ranges c
  | anyText, _ => false
  | anyDirectories, _ => false

/-- What is left of a text behind its first character, if the wildcard stands for that. -/
def strip? (w : Wildcard) : List Char → Option (List Char)
  | [] => none
  | c :: cs => if w.takes c then some cs else none

/-- A text and all its ends, the longest first. -/
def ends : List Char → List (List Char)
  | [] => [[]]
  | c :: cs => (c :: cs) :: ends cs

/-- What may be left of a name behind a wildcard, given what may be left in front of it, both with
the longest first.  The ends of the longest are the ends of all. -/
def leave (rests : List (List Char)) : Wildcard → List (List Char)
  | anyText => (rests.head?.map ends).getD []
  | w => rests.filterMap w.strip?

/-- Whether a name matches.  All that may be left of it goes from one wildcard to the next
together, so a name is never gone through more often than there are wildcards and characters. -/
def matchesName (ws : List Wildcard) (name : List Char) : Bool :=
  (ws.foldl leave [name]).any List.isEmpty

/-- The text that is the only one to match, if there are no wildcards in it. -/
def literal? : List Wildcard → Option (List Char)
  | [] => some []
  | char c :: ws => (literal? ws).map (c :: ·)
  | _ => none

end Wildcard
end Files
end FieldRules
