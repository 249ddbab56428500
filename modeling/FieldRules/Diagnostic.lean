/-
What was found wrong with markers, and how it is reported.

A diagnostic withholds one check and stops nothing.  They are reported in
reading order; those at one place keep the order in which they were found.
-/
import FieldRules.Sorted
import FieldRules.Text.Position

namespace FieldRules

/-- A text with every occurrence of a pattern replaced, from the left.  The first `behind`
characters belong to an occurrence that is replaced already. -/
def Text.replaceFrom (pattern replacement : List Char) : Nat → List Char → List Char
  | _, [] => []
  | behind + 1, _ :: cs => replaceFrom pattern replacement behind cs
  | 0, c :: cs =>
    if pattern.isPrefixOf (c :: cs) then
      replacement ++ replaceFrom pattern replacement (pattern.length - 1) cs
    else c :: replaceFrom pattern replacement 0 cs

open Text

inductive DiagnosticKind where
  | malformedMarker
  | unknownRule
  | incompatibleRule
  | invalidArgument
  | duplicateRule
  deriving DecidableEq, Repr

namespace DiagnosticKind

def name : DiagnosticKind → String
  | malformedMarker => "MalformedMarker"
  | unknownRule => "UnknownRule"
  | incompatibleRule => "IncompatibleRule"
  | invalidArgument => "InvalidArgument"
  | duplicateRule => "DuplicateRule"

def label : DiagnosticKind → String
  | malformedMarker => "malformed-marker"
  | unknownRule => "unknown-rule"
  | incompatibleRule => "incompatible-rule"
  | invalidArgument => "invalid-argument"
  | duplicateRule => "duplicate-rule"

def all : List DiagnosticKind :=
  [malformedMarker, unknownRule, incompatibleRule, invalidArgument, duplicateRule]

end DiagnosticKind

structure Diagnostic where
  kind : DiagnosticKind
  record : String
  path : String
  /-- The rule as it was written, where one could be read. -/
  rule : Option String
  message : String
  position : Position
  deriving DecidableEq, Repr

/-- Terminal styles: how emphasised parts of a report are wrapped. -/
structure Style where
  colored : Bool

namespace Style

def reset : String := "\x1b[0m"

/-- Starts a style and ends it.  Where the text itself ends all styles the style starts again. -/
def wrap (style : Style) (codes text : String) : String :=
  let start := "\x1b[" ++ codes ++ "m"
  if style.colored then
    let inner := replaceFrom reset.toList (reset ++ start).toList 0 text.toList
    start ++ String.ofList inner ++ reset
  else text

def bold (style : Style) (text : String) : String := style.wrap "1" text

def alarm (style : Style) (text : String) : String := style.wrap "1;31" text

def tint (style : Style) (text : String) : String := style.wrap "36" text

end Style

namespace Diagnostic

def render (d : Diagnostic) : String :=
  d.position.render ++ ": " ++ d.record ++ "." ++ d.path ++ ": " ++ d.message ++ " [" ++
    d.kind.label ++ "]"

def renderIn (d : Diagnostic) (style : Style) (file : String) : String :=
  style.bold file ++ ":" ++ d.position.render ++ " " ++
    style.alarm ("error[" ++ d.kind.label ++ "]") ++ " " ++ d.record ++ "." ++ style.tint d.path ++
    ": " ++ d.message ++ "\n"

def renderAll (style : Style) (file : String) (ds : List Diagnostic) : String :=
  String.join (ds.map fun d => d.renderIn style file)

/-- Reading order, stable. -/
def sort (ds : List Diagnostic) : List Diagnostic :=
  sortBy (fun a b => a.position.le b.position) ds

theorem sort_perm (ds : List Diagnostic) : (sort ds).Perm ds := sortBy_perm ds

theorem pairwise_sort (ds : List Diagnostic) :
    (sort ds).Pairwise fun a b => a.position.le b.position = true := by
  apply pairwise_sortBy
  · intro a b h
    exact Position.le_total h
  · intro a b c hab hbc
    exact Position.le_trans hab hbc

/-- Choosing some diagnostics keeps their order. -/
theorem filter_sort (p : Diagnostic → Bool) (ds : List Diagnostic) :
    (sort ds).filter p = sort (ds.filter p) := by
  apply filter_sortBy
  · intro a b h
    exact Position.le_total h
  · intro a b c hab hbc
    exact Position.le_trans hab hbc

def forRecord (record : String) (ds : List Diagnostic) : List Diagnostic :=
  ds.filter (·.record == record)

def hasRecord (record : String) (ds : List Diagnostic) : Bool := ds.any (·.record == record)

end Diagnostic

end FieldRules
