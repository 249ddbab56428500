/-
The program: runs a command line on the files below the working directory.
-/
import FieldRules.CommandLine.Run

namespace FieldRules
namespace Main

open Files CommandLine

/-- The files below a directory of the disk, which stands at `place`, behind those of a tree.
What cannot be looked at is left out. -/
partial def snapshot (place : Place) (tree : Tree) (items : List IO.FS.DirEntry) : IO Tree := do
  match items with
  | [] => return tree
  | item :: more =>
    let inside := place ++ [item.fileName]
    let grown ←
      try
        let data ← item.path.metadata
        if data.type == .dir then
          snapshot inside (tree.set inside .directory) (← item.path.readDir).toList
        else
          let bytes ← IO.FS.readBinFile item.path
          pure (tree.set inside (.file (Content.ofBytes bytes.toList)))
      catch _ => pure tree
    snapshot place grown more

/-- A place as a path. -/
def pathOf (place : Place) : String := Path.ofSegments place

/-- Makes one entry of the disk as it is in a tree. -/
def store (before : Tree) (item : Place × Entry) : IO Unit := do
  if before.at? item.1 != some item.2 then
    match item.2 with
    | .directory => IO.FS.createDirAll (pathOf item.1)
    | .file (.text value) => IO.FS.writeFile (pathOf item.1) value
    | .file (.binary _) => pure ()

/-- Makes the disk what a run has left. -/
def storeAll (before after : Tree) : IO Unit := do
  for item in before.entries do
    if (after.at? item.1).isNone then IO.FS.removeFile (pathOf item.1)
  for item in after.entries do
    store before item

/-- Reads the command line and does what it asks for. -/
def program (arguments : List String) : IO UInt32 := do
  match Arguments.read arguments with
  | .error refusal =>
    if refusal.isAnswer then IO.println refusal.message else IO.eprintln refusal.message
    return refusal.exitCode.toUInt32
  | .ok request =>
    let here ← IO.currentDir
    let before ← snapshot [] Tree.empty (← here.readDir).toList
    let outcome := run ⟨← (← IO.getStdout).isTty⟩ request before
    storeAll before outcome.tree
    IO.print outcome.output
    IO.eprint outcome.errors
    match outcome.ending with
    | .broken failure => IO.eprintln ("error: " ++ failure.message)
    | _ => pure ()
    return outcome.ending.exitCode.toUInt32

end Main
end FieldRules

def main (arguments : List String) : IO UInt32 := FieldRules.Main.program arguments
