/-
Emitted files in their places.

The file of an artifact stands in the output directory, or beside its source.
Artifacts that are not authoritative leave what is there alone.  A record that
has neither a plan nor a diagnostic should have no file; one that was emitted
for it from the same source is an orphan and is taken away.  Files that were not
emitted from that source are never orphans.
-/
import FieldRules.CommandLine.Arguments
import FieldRules.CommandLine.Inputs
import FieldRules.Text.Lines

namespace FieldRules
namespace CommandLine

open Files Text

def outputDirectory (target : Target) (path : String) : String :=
  target.outDir.getD ((Path.parent? path).getD "")

def outputPath (directory fileName : String) : String := Path.join directory fileName

/-- Whether a text is that of a file emitted from a source. -/
def isEmittedFrom (sourceName text : String) : Bool :=
  match lines text.toList with
  | first :: second :: _ =>
    first == headerLine.toList && second == (sourceLine sourceName).toList
  | _ => false

def unplanned (unit : CompiledUnit) : List String :=
  unit.records.filter fun record =>
    !(Plan.names unit.plans).contains record && !Diagnostic.hasRecord record unit.diagnostics

/-- Whether there is a file at a path that was emitted from a source. -/
def holdsEmitted (tree : Tree) (sourceName path : String) : Bool :=
  match tree.readText path with
  | .ok text => isEmittedFrom sourceName text
  | .error _ => false

/-- The files of records that should have none. -/
def orphans (tree : Tree) (options : Emission.Options) (directory : String)
    (unit : CompiledUnit) : List String :=
  ((unplanned unit).map fun record => outputPath directory (options.fileName record)).filter
    (holdsEmitted tree unit.sourceName)

def authoritative (unit : CompiledUnit) : List Artifact := unit.artifacts.filter (·.authoritative)

/-- Whether the file of an artifact holds what it should. -/
def isCurrent (tree : Tree) (directory : String) (artifact : Artifact) : Bool :=
  match tree.readText (outputPath directory artifact.fileName) with
  | .ok text => text == artifact.source
  | .error _ => false

def stale (tree : Tree) (target : Target) (loaded : Loaded) : List String :=
  match loaded.result with
  | .error _ => []
  | .ok unit =>
    let directory := outputDirectory target loaded.path
    ((authoritative unit).filter fun artifact => !isCurrent tree directory artifact).map
        (fun artifact => outputPath directory artifact.fileName) ++
      orphans tree target.options directory unit

/-- A change of the tree; what was changed before a failure stays. -/
abbrev Change := Tree → Option Failure × Tree

namespace Change

def idle : Change := fun tree => (none, tree)

/-- One change after another, unless it fails. -/
def andThen (first second : Change) : Change := fun tree =>
  match first tree with
  | (some failure, after) => (some failure, after)
  | (none, after) => second after

/-- Changes for some things in turn, up to the first that fails. -/
def inTurn {α : Type} (change : α → Change) : List α → Change
  | [] => idle
  | a :: more => andThen (change a) (inTurn change more)

/-- Makes a directory and those above it. -/
def makeDirectories (path : String) : Change := fun tree =>
  match tree.makeDirectories path with
  | (some fault, after) => (some (.noDirectory path fault), after)
  | (none, after) => (none, after)

def write (path text : String) : Change := fun tree =>
  match tree.writeText path text with
  | .error fault => (some (.unwritable path fault), tree)
  | .ok after => (none, after)

def remove (path : String) : Change := fun tree =>
  match tree.removeFile path with
  | .error fault => (some (.unremovable path fault), tree)
  | .ok after => (none, after)

end Change

open Change

def writeArtifact (directory : String) (artifact : Artifact) : Change :=
  andThen (makeDirectories directory)
    (write (outputPath directory artifact.fileName) artifact.source)

def removeOrphans (options : Emission.Options) (directory : String) (unit : CompiledUnit) :
    Change := fun tree => inTurn remove (orphans tree options directory unit) tree

/-- Writes and takes away what a compiled file asks for. -/
def deliver (target : Target) (loaded : Loaded) : Change :=
  match loaded.result with
  | .error _ => idle
  | .ok unit =>
    let directory := outputDirectory target loaded.path
    andThen (inTurn (writeArtifact directory) (authoritative unit))
      (removeOrphans target.options directory unit)

end CommandLine
end FieldRules
