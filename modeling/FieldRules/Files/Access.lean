/-
Reading and changing a tree by paths.

A path is followed name by name from the working directory; all but the last
name must lead to directories.  What is named from the root of the file system
is not there.
-/
import FieldRules.Files.Path
import FieldRules.Files.Tree

namespace FieldRules
namespace Files

inductive Fault where
  | missing
  | present
  | notDirectory
  | isDirectory
  | nameTooLong
  | nulInName
  | notText
  deriving DecidableEq, Repr

def Fault.message : Fault → String
  | missing => "No such file or directory (os error 2)"
  | present => "File exists (os error 17)"
  | notDirectory => "Not a directory (os error 20)"
  | isDirectory => "Is a directory (os error 21)"
  | nameTooLong => "File name too long (os error 36)"
  | nulInName => "file name contained an unexpected NUL byte"
  | notText => "stream did not contain valid UTF-8"

def longestName : Nat := 255

def longestPath : Nat := 4095

namespace Tree

/-- The place that a name leads to from a directory, whether anything stands there or not. -/
def step (place : Place) (name : String) : Except Fault Place :=
  if name = "." then .ok place
  else if name = ".." then .ok (if isAbove place then place ++ [".."] else place.dropLast)
  else if longestName < name.utf8ByteSize then .error .nameTooLong
  else .ok (place ++ [name])

def enter (tree : Tree) (place : Place) (name : String) : Except Fault Place :=
  match step place name with
  | .error fault => .error fault
  | .ok inside =>
    match tree.at? inside with
    | none => .error .missing
    | some (.file _) => .error .notDirectory
    | some .directory => .ok inside

/-- Follows names, of which all but the last must lead to directories. -/
def follow (tree : Tree) : Place → List String → Except Fault Place
  | place, [] => .ok place
  | place, [name] => step place name
  | place, name :: names =>
    match enter tree place name with
    | .error fault => .error fault
    | .ok inside => follow tree inside names

/-- The place that a path leads to, whether anything stands there or not. -/
def locate (tree : Tree) (path : String) : Except Fault Place :=
  if path.toList.contains '\x00' then .error .nulInName
  else if longestPath < path.utf8ByteSize then .error .nameTooLong
  else if path.isEmpty || Path.startsWithSlash path then .error .missing
  else follow tree [] (Path.names path)

def entry (tree : Tree) (path : String) : Except Fault Entry :=
  match tree.locate path with
  | .error fault => .error fault
  | .ok place =>
    match tree.at? place with
    | none => .error .missing
    | some .directory => .ok .directory
    | some (.file content) =>
      if Path.endsWithSlash path then .error .notDirectory else .ok (.file content)

def hasDirectory (tree : Tree) (path : String) : Bool :=
  match tree.entry path with
  | .ok .directory => true
  | _ => false

def hasEntry (tree : Tree) (path : String) : Bool := (tree.entry path).toOption.isSome

def readText (tree : Tree) (path : String) : Except Fault String :=
  match tree.entry path with
  | .error fault => .error fault
  | .ok .directory => .error .isDirectory
  | .ok (.file (.binary _)) => .error .notText
  | .ok (.file (.text value)) => .ok value

/-- Gives a file a text.  The file is made if it is not there, its directory is not. -/
def writeText (tree : Tree) (path text : String) : Except Fault Tree :=
  match tree.locate path with
  | .error fault => .error fault
  | .ok place =>
    if Path.endsWithSlash path then .error .isDirectory
    else
      match tree.at? place with
      | some .directory => .error .isDirectory
      | _ => .ok (tree.set place (.file (.text text)))

def removeFile (tree : Tree) (path : String) : Except Fault Tree :=
  match tree.locate path with
  | .error fault => .error fault
  | .ok place =>
    match tree.at? place with
    | none => .error .missing
    | some .directory => .error .isDirectory
    | some (.file _) =>
      if Path.endsWithSlash path then .error .notDirectory else .ok (tree.erase place)

def makeDirectory (tree : Tree) (path : String) : Except Fault Tree :=
  match tree.locate path with
  | .error fault => .error fault
  | .ok place =>
    match tree.at? place with
    | none => .ok (tree.set place .directory)
    | some _ => .error .present

/-- Makes a directory unless it is there. -/
def ensureDirectory (tree : Tree) (path : String) : Except Fault Tree :=
  match tree.makeDirectory path with
  | .ok after => .ok after
  | .error fault => if tree.hasDirectory path then .ok tree else .error fault

/-- Makes a directory and, where they are missing, those above it.  Directories that were made
stay even if a further one cannot be made.  `fuel` bounds the length of the path. -/
def makeDirectoriesWithin : Nat → Tree → String → Option Fault × Tree
  | 0, tree, _ => (some .missing, tree)
  | fuel + 1, tree, path =>
    if path.isEmpty then (none, tree)
    else
      match tree.ensureDirectory path with
      | .ok after => (none, after)
      | .error .missing =>
        match Path.parent? path with
        | none => (some .missing, tree)
        | some parent =>
          match makeDirectoriesWithin fuel tree parent with
          | (some fault, after) => (some fault, after)
          | (none, above) =>
            match above.ensureDirectory path with
            | .ok after => (none, after)
            | .error fault => (some fault, above)
      | .error fault => (some fault, tree)

/-- Makes a directory and those above it. -/
def makeDirectories (tree : Tree) (path : String) : Option Fault × Tree :=
  makeDirectoriesWithin (path.length + 1) tree path

def namesIn (tree : Tree) (path : String) : List String :=
  match tree.locate path with
  | .error _ => []
  | .ok place => if tree.at? place = some .directory then tree.children place else []

end Tree
end Files
end FieldRules
