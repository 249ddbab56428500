/-
What a command line does to the files below the working directory, what it
prints and how it ends.

All inputs are read before anything is written.  A run fails if something was
found wrong with an input or an emitted file is stale; it still does what can be
done.  It breaks off where a file cannot be read or changed.
-/
import FieldRules.CommandLine.Outputs

namespace FieldRules
namespace CommandLine

open Files Change

inductive Ending where
  | succeeded
  | failed
  | broken (failure : Failure)
  deriving DecidableEq, Repr

def Ending.exitCode : Ending → Nat
  | succeeded => 0
  | failed => 1
  | broken _ => 1

structure Outcome where
  output : String
  /-- Output about what was found wrong. -/
  errors : String
  ending : Ending
  /-- The files as they are left. -/
  tree : Tree

/-- A run that ended before it printed anything. -/
def Outcome.brokenOff (failure : Failure) (tree : Tree) : Outcome := ⟨"", "", .broken failure, tree⟩

def endingOf (bad : Bool) : Ending := if bad then .failed else .succeeded

/-- Reports on compiled files, each with the emitted files that are stale. -/
def report (style : Style) (format : ReportFormat) (reports : List (Loaded × List String))
    (tree : Tree) : Outcome :=
  let ending := endingOf (reports.any fun (loaded, stale) => loaded.failed || !stale.isEmpty)
  match format with
  | .human => ⟨"", String.join (reports.map fun (loaded, stale) => loaded.render style stale), ending,
      tree⟩
  | .json =>
    ⟨(Json.array (reports.map fun (loaded, stale) => loaded.toJson stale)).pretty 0 ++ "\n", "",
      ending, tree⟩

def generate (style : Style) (target : Target) (inputs : List String) (tree : Tree) : Outcome :=
  match loadInputs tree target.options inputs with
  | .error failure => .brokenOff failure tree
  | .ok loaded =>
    match inTurn (deliver target) loaded tree with
    | (some failure, after) => .brokenOff failure after
    | (none, after) => report style target.format (loaded.map fun l => (l, [])) after

def check (style : Style) (target : Target) (inputs : List String) (tree : Tree) : Outcome :=
  match loadInputs tree target.options inputs with
  | .error failure => .brokenOff failure tree
  | .ok loaded => report style target.format (loaded.map fun l => (l, stale tree target l)) tree

/-- The plans of the files that could be read as declarations. -/
def plansOf (loaded : List Loaded) : String :=
  (Json.array (loaded.filterMap fun l => l.result.toOption.map Report.ofUnit)).pretty 0

/-- The lines about the files that could not. -/
def syntaxLines (loaded : List Loaded) : String :=
  String.join (loaded.map fun l =>
    match l.result with
    | .ok _ => ""
    | .error e => Report.syntaxLine l.path e)

/-- Writes a text to a path, with the directories above it. -/
def writeOut (path text : String) : Change :=
  match Path.parent? path with
  | none => write path text
  | some parent => andThen (makeDirectories parent) (write path text)

def plan (out : Option String) (inputs : List String) (tree : Tree) : Outcome :=
  match loadInputs tree Emission.Options.default inputs with
  | .error failure => .brokenOff failure tree
  | .ok loaded =>
    let ending := endingOf (loaded.any (·.failed))
    match out with
    | none => ⟨plansOf loaded ++ "\n", syntaxLines loaded, ending, tree⟩
    | some path =>
      match writeOut path (plansOf loaded) tree with
      | (some failure, after) => ⟨"", syntaxLines loaded, .broken failure, after⟩
      | (none, after) => ⟨"", syntaxLines loaded, ending, after⟩

def run (style : Style) (arguments : Arguments) (tree : Tree) : Outcome :=
  match arguments.action with
  | .generate target => generate style target arguments.inputs tree
  | .check target => check style target arguments.inputs tree
  | .plan out => plan out arguments.inputs tree

end CommandLine
end FieldRules
