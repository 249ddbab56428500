/-
Finding files by patterns.

A pattern is cut at its slashes and each part is matched with the names in the
directories found so far.  Names without wildcards are looked up as they are and
may lead anywhere; wildcards see what a directory lists.  Results come in
ascending order of names, a directory before what is in it; a pattern whose name
starts with a dot may also match the two dots and the dot, which come first.
-/
import FieldRules.Files.Access
import FieldRules.Files.Pattern

namespace FieldRules
namespace Files

inductive PathPart where
  | name (text : String)
  | wild (wildcards : List Wildcard)
  | directories
  deriving DecidableEq, Repr

namespace PathPart

def ofWildcards (wildcards : List Wildcard) : PathPart :=
  if wildcards = [.anyDirectories] then directories
  else
    match Wildcard.literal? wildcards with
    | some text => name (String.ofList text)
    | none => wild wildcards

/-- Reads parts, of which each must be a pattern by itself. -/
def readAll : List (List Char) → Except PatternError (List PathPart)
  | [] => .ok []
  | text :: texts =>
    match Wildcard.read text with
    | .error e => .error e
    | .ok ws => (readAll texts).map (ofWildcards ws :: ·)

/-- The parts of a pattern; a slash at its end adds none. -/
def texts (pattern : List Char) : List (List Char) :=
  let all := Text.splitAt (· == '/') pattern
  if all.getLast? = some [] then all.dropLast else all

def read (pattern : String) : Except PatternError (List PathPart) :=
  match Wildcard.read pattern.toList with
  | .error e => .error e
  | .ok _ => readAll (texts pattern.toList)

/-- Whether a part matches the name of a file. -/
def matchesName : PathPart → String → Bool
  | name text, file => text == file
  | wild ws, file => Wildcard.matchesName ws file.toList
  | directories, _ => false

/-- The names of the directory itself and the one above it that a part matches. -/
def dots : PathPart → List String
  | wild ws =>
    if ws.head? = some (.char '.') then
      ["..", "."].filter fun name => Wildcard.matchesName ws name.toList
    else []
  | _ => []

end PathPart

namespace Glob

/-- Which results are wanted, and where they are looked for. -/
structure Search where
  tree : Tree
  /-- Whether only directories count. -/
  onlyDirectories : Bool

namespace Search

/-- A path that all parts were spent on. -/
def accept (search : Search) (path : String) : List String :=
  if search.onlyDirectories && !search.tree.hasDirectory path then [] else [path]

/-- A path goes on from another; behind the working directory it is the name alone. -/
def below (path name : String) : String := if Path.isHere path then name else Path.join path name

/-- Goes on behind a path that a part has led to. -/
def proceed (search : Search) (expand : List PathPart → String → List String)
    (parts : List PathPart) (path : String) : List String :=
  if parts.isEmpty then search.accept path else expand parts path

/-- What a file leads to whose name is matched with the first part. -/
def onName (search : Search) (expand : List PathPart → String → List String) :
    List PathPart → String → String → List String
  | [], _, _ => []
  | part :: parts, path, name =>
    if part.matchesName name then search.proceed expand parts path else []

/-- What an entry of a directory leads to. -/
def onEntry (search : Search) (expand : List PathPart → String → List String)
    (parts : List PathPart) (path name : String) : List String :=
  match parts with
  | .directories :: more =>
    let rest := more.dropWhile (· == .directories)
    let inside :=
      if search.tree.hasDirectory path then expand (.directories :: rest) path else []
    if rest.isEmpty then
      if search.tree.hasDirectory path then path :: inside else []
    else search.onName expand rest path name ++ inside
  | _ => search.onName expand parts path name

/-- What parts lead to from a path; `fuel` bounds the number of steps. -/
def expand (search : Search) : Nat → List PathPart → String → List String
  | 0, _, _ => []
  | _ + 1, [], _ => []
  | fuel + 1, .name text :: parts, path =>
    let next := below path text
    let found :=
      if text == "." || text == ".." then search.tree.hasDirectory path
      else search.tree.hasEntry next
    if found then search.proceed (search.expand fuel) parts next else []
  | fuel + 1, part :: parts, path =>
    if search.tree.hasDirectory path then
      part.dots.flatMap (fun name => search.proceed (search.expand fuel) parts (Path.join path name)) ++
        (search.tree.namesIn path).flatMap fun name =>
          search.onEntry (search.expand fuel) (part :: parts) (below path name) name
    else []

end Search

/-- The length of the longest place. -/
def depth (tree : Tree) : Nat := (tree.entries.map (·.1.length)).foldl max 0

/-- The paths that a pattern matches.  Each step either spends a part or goes one directory
deeper for one. -/
def find (tree : Tree) (pattern : String) : Except PatternError (List String) :=
  (PathPart.read pattern).map fun parts =>
    Search.expand ⟨tree, Path.endsWithSlash pattern⟩ ((parts.length + 1) * (depth tree + 2)) parts
      "."

/-- Whether a text is meant as a pattern and not as a path. -/
def isPattern (text : String) : Bool :=
  text.toList.any fun c => c == '*' || c == '?' || c == '[' || c == '\x7b'

end Glob
end Files
end FieldRules
