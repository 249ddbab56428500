/-
From the inputs on a command line to compiled files.

An input is a path, or a pattern that must match something.  Patterns pass over
directories, tests and emitted files, which still count as matches.
-/
import FieldRules.Files.Glob
import FieldRules.Report
import FieldRules.Text.Blank

namespace FieldRules
namespace CommandLine

open Files Text

inductive Failure where
  | badPattern (pattern : String) (error : PatternError)
  | noMatch (pattern : String)
  | unreadable (path : String) (fault : Fault)
  | noDirectory (path : String) (fault : Fault)
  | unwritable (path : String) (fault : Fault)
  | unremovable (path : String) (fault : Fault)
  deriving DecidableEq, Repr

def Failure.message : Failure → String
  | badPattern pattern e =>
    "failed to resolve input file paths: invalid glob pattern: " ++ pattern ++ ": " ++ e.message
  | noMatch pattern =>
    "failed to resolve input file paths: glob pattern matched no files: " ++ pattern
  | unreadable path fault => "failed to read source file " ++ path ++ ": " ++ fault.message
  | noDirectory path fault => "failed to create output directory " ++ path ++ ": " ++ fault.message
  | unwritable path fault => "failed to write " ++ path ++ ": " ++ fault.message
  | unremovable path fault => "failed to remove " ++ path ++ ": " ++ fault.message

/-- The line that every emitted file starts with. -/
def headerLine : String := "// " ++ Emission.generatedComment

/-- The line that names the source of an emitted file. -/
def sourceLine (sourceName : String) : String := "// " ++ Emission.sourceComment sourceName

/-- The end of the names of tests. -/
def testSuffix : String := "_test.go"

def startsEmitted (content : Content) : Bool :=
  match content.firstLine? with
  | none => false
  | some line => trimEnd line.toList == headerLine.toList

/-- Whether patterns pass over a path. -/
def isSkipped (tree : Tree) (path : String) : Bool :=
  testSuffix.toList.isSuffixOf ((Path.fileName? path).getD "").toList ||
    match tree.entry path with
    | .ok .directory => true
    | .ok (.file content) => startsEmitted content
    | .error _ => false

def pathsOf (tree : Tree) (input : String) : Except Failure (List String) :=
  if Glob.isPattern input then
    match Glob.find tree input with
    | .error e => .error (.badPattern input e)
    | .ok [] => .error (.noMatch input)
    | .ok found => .ok (found.filter fun path => !isSkipped tree path)
  else .ok [input]

def pathsOfAll (tree : Tree) : List String → Except Failure (List String)
  | [] => .ok []
  | input :: inputs =>
    match pathsOf tree input with
    | .error failure => .error failure
    | .ok paths => (pathsOfAll tree inputs).map (paths ++ ·)

/-- The name by which a source file is known in what is emitted for it. -/
def sourceName (path : String) : String := (Path.fileName? path).getD path

def load (tree : Tree) (options : Emission.Options) (path : String) : Except Failure Loaded :=
  match tree.readText path with
  | .error fault => .error (.unreadable path fault)
  | .ok text => .ok ⟨path, CompiledUnit.compile options (sourceName path) text⟩

/-- Reads and compiles files; the first that cannot be read ends it. -/
def loadAll (tree : Tree) (options : Emission.Options) :
    List String → Except Failure (List Loaded)
  | [] => .ok []
  | path :: paths =>
    match load tree options path with
    | .error failure => .error failure
    | .ok loaded => (loadAll tree options paths).map (loaded :: ·)

/-- Everything that some inputs stand for, compiled. -/
def loadInputs (tree : Tree) (options : Emission.Options) (inputs : List String) :
    Except Failure (List Loaded) :=
  match pathsOfAll tree inputs with
  | .error failure => .error failure
  | .ok paths => loadAll tree options paths

end CommandLine
end FieldRules
