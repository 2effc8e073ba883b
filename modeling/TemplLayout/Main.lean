import TemplLayout.Command.Run

/-!
# TemplLayout.Main

The program. It takes in the files that a command speaks of, carries the command out on them, prints,
and puts back the files that have changed. What is logged is set by the variable `RUST_LOG`.
-/

namespace TemplLayout

/-- The path of a place, from the root of all files on. -/
def Place.spelled (place : Place) : String :=
  "/" ++ String.intercalate "/" (place.map Text.string)

/-- The folder that the program runs in. -/
def currentPlace : IO Place := do
  let here ← IO.currentDir
  return (Path.parts here.toString.toList).filter (!·.isEmpty)

/-- Adds a file that is not there yet. -/
def Workspace.addFile (w : Workspace) (f : File) : Workspace :=
  if (w.file? f.place).isSome then w else { w with files := w.files ++ [f] }

def Workspace.addFolder (w : Workspace) (place : Place) : Workspace :=
  { w with folders := place :: w.folders }

def takeInFile (w : Workspace) (place : Place) : IO Workspace := do
  let here ← IO.currentDir
  let bytes ← IO.FS.readBinFile (here / place.spelled)
  return w.addFile ⟨place, bytes.toList⟩

/-- Takes in the template files below a folder. -/
partial def takeInFolder (w : Workspace) (place : Place) : IO Workspace := do
  let here ← IO.currentDir
  let mut w := w.addFolder place
  for entry in ← (here / place.spelled).readDir do
    let name := entry.fileName.toList
    if (← entry.path.symlinkMetadata).type == .dir then
      w ← takeInFolder w (place ++ [name])
    else if Path.isTemplate name && !(← entry.path.isDir) then
      w ← takeInFile w (place ++ [name])
  return w

/-- Takes in whatever a path passes, and what lies below its end. -/
def takeIn (w : Workspace) (path : Path) : IO Workspace := do
  let here ← IO.currentDir
  let mut w := w
  let mut place := w.origin path
  for part in Path.parts path do
    place := Path.enter place part
    let spot := here / place.spelled
    if ← spot.isDir then w := w.addFolder place
    else if ← spot.pathExists then w ← takeInFile w place
  if ← (here / place.spelled).isDir then takeInFolder w place else return w

/-- Writes the files whose bytes are no longer what they were. -/
def putBack (before after : Workspace) : IO Unit := do
  let here ← IO.currentDir
  for f in after.files do
    if before.file? f.place ≠ some f then
      IO.FS.writeBinFile (here / f.place.spelled) f.bytes.toByteArray

def Command.paths : Command → List Path
  | .format [] _ _ => [['.']]
  | .format paths _ _ => paths
  | .outline path => [path]
  | .version => []

def Command.carryOut (command : Command) : IO UInt32 := do
  let before ← command.paths.foldlM takeIn ⟨[], [], ← currentPlace⟩
  let outcome := command.run before
  IO.print outcome.output
  putBack before outcome.workspace
  let filter := Filter.ofSetting (← IO.getEnv "RUST_LOG")
  for line in outcome.report filter do
    IO.eprintln line
  return outcome.exitCode.toUInt32

end TemplLayout

open TemplLayout in
def main (args : List String) : IO UInt32 := do
  match Command.ofArgs? args with
  | some command => command.carryOut
  | none =>
    IO.eprintln "Usage: templfmt fmt [PATHS]... [--write] [--check]"
    IO.eprintln "       templfmt debug FILE"
    IO.eprintln "       templfmt --version"
    return 2
