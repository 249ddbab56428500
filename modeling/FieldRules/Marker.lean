/-
Markers: lines of comments that ask for a rule.

A marker line reads `+govalid:` followed by a rule name and, where the rule
takes one, `=` and an argument.  White space before it does not count; on the
further lines of a block comment neither does a gutter of stars.
-/
import FieldRules.Text.Blank
import FieldRules.Text.Letter
import FieldRules.Go.TypeExpr

namespace FieldRules

open Text

/-- What every marker line starts with. -/
def markerStart : List Char := "+govalid:".toList

structure Marker where
  rule : String
  /-- The text behind `=`, without white space at its end. -/
  argument : Option String
  position : Position
  deriving DecidableEq, Repr

inductive MarkerFault where
  | notMarker (text : String)
  | noRule (text : String)
  | unexpected (rest rule : String)
  deriving DecidableEq, Repr

def MarkerFault.message : MarkerFault → String
  | notMarker text => "`" ++ text ++ "` is not a marker"
  | noRule text => "marker `" ++ text ++ "` has no rule name"
  | unexpected rest rule =>
    "unexpected `" ++ rest ++ "` after rule `" ++ rule ++ "`; arguments are written `" ++
      String.ofList markerStart ++ rule ++ "=<value>`"

structure Malformed where
  fault : MarkerFault
  position : Position
  deriving DecidableEq, Repr

namespace Marker

def startsRule (c : Char) : Bool := isAsciiLetter c || c == '_'

def continuesRule (c : Char) : Bool := startsRule c || isAsciiDigit c

/-- The text behind a given start. -/
def behind? : List Char → List Char → Option (List Char)
  | [], cs => some cs
  | _ :: _, [] => none
  | p :: ps, c :: cs => if p = c then behind? ps cs else none

/-- The longest rule name at the front of a text; it may be empty. -/
def ruleName : List Char → List Char
  | [] => []
  | c :: cs => if startsRule c then c :: cs.takeWhile continuesRule else []

/-- What follows the rule name: an argument, or white space. -/
def readArgument (rule rest : List Char) : Except MarkerFault (Option String) :=
  match rest with
  | '=' :: argument => .ok (some (String.ofList (trimEnd argument)))
  | _ =>
    if isAllBlank rest then .ok none
    else .error (.unexpected (String.ofList (trim rest)) (String.ofList rule))

def read (text : List Char) : Except MarkerFault (String × Option String) :=
  match behind? markerStart text with
  | none => .error (.notMarker (String.ofList text))
  | some body =>
    if body.contains '\n' then .error (.notMarker (String.ofList text))
    else
      let rule := ruleName body
      if rule.isEmpty then .error (.noRule (String.ofList (trimEnd text)))
      else (readArgument rule (body.drop rule.length)).map (String.ofList rule, ·)

def parse (text : List Char) (position : Position) : Except Malformed Marker :=
  match read text with
  | .error fault => .error ⟨fault, position⟩
  | .ok (rule, argument) => .ok ⟨rule, argument, position⟩

/-- A line of a comment without what may stand before a marker; `index` counts lines from zero. -/
def lineBody (index : Nat) (line : List Char) : List Char :=
  let body := trimStart line
  if index = 0 then body else trimStart (body.dropWhile (· == '*'))

/-- The place of what is left of a line.  The first line starts behind the two characters that
open the comment. -/
def linePosition (comment : Position) (index indent : Nat) : Position :=
  if index = 0 then ⟨comment.line, comment.column + 2 + indent⟩
  else ⟨comment.line + index, indent + 1⟩

/-- The marker on a line of a comment, if the line is meant to be one. -/
def onLine? (comment : Position) (index : Nat) (line : List Char) :
    Option (Except Malformed Marker) :=
  let body := lineBody index line
  if (behind? markerStart body).isSome then
    some (parse body (linePosition comment index (line.length - body.length)))
  else none

/-- The markers on the lines of a comment from the line `index` on. -/
def onLines (comment : Position) : Nat → List (List Char) → List (Except Malformed Marker)
  | _, [] => []
  | index, line :: lines =>
    (onLine? comment index line).toList ++ onLines comment (index + 1) lines

def ofComment (comment : Go.Comment) : List (Except Malformed Marker) :=
  onLines comment.position 0 (splitAt (· == '\n') comment.text.toList)

/-- The markers of a comment group, in order. -/
def ofDoc (doc : List Go.Comment) : List (Except Malformed Marker) := doc.flatMap ofComment

end Marker

end FieldRules
