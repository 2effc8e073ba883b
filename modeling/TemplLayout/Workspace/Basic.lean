import TemplLayout.Text.Utf8

/-!
# TemplLayout.Workspace.Basic

The files that a run sees.

* `Place`                — where a file is: the names of the folders from the root of all files down
  to it, and its own.
* `Workspace`            — files with their bytes, and the folder that a run works in. A folder is
  there when something is in it, or when it is listed.
* `Workspace.locate`     — the place that a path leads to.
* `Workspace.read`       — the text of the file at the end of a path.
* `Workspace.store`      — other bytes for a file.
* `Workspace.collect`    — the template files that a path stands for, each as a path.
* `Workspace.collectAll` — the same for several paths, in their order.

Paths are texts with `/` between their parts. A path leads somewhere only if each part but the last
is a folder, also where the next part goes back up. A file has one place, whatever paths lead to it.
-/

namespace TemplLayout

abbrev Place := List Text

abbrev Path := Text

structure File where
  place : Place
  bytes : Bytes
deriving DecidableEq, Repr

structure Workspace where
  files : List File
  /-- Folders known beside those that hold something. -/
  folders : List Place
  /-- The folder in which paths start that begin with no slash. -/
  here : Place
deriving DecidableEq, Repr

/-- Why the text of a path could not be had. -/
inductive ReadFault where
  | missing
  | throughFile
  | isFolder
  | notUtf8
deriving DecidableEq, Repr

def ReadFault.message : ReadFault → String
  | .missing => "No such file or directory (os error 2)"
  | .throughFile => "Not a directory (os error 20)"
  | .isFolder => "Is a directory (os error 21)"
  | .notUtf8 => "stream did not contain valid UTF-8"

namespace Path

/-- The stretches between the slashes, empty ones included. -/
def parts : Path → List Text
  | [] => [[]]
  | c :: rest =>
    match parts rest with
    | [] => [[c]]
    | part :: others => if c = '/' then [] :: part :: others else (c :: part) :: others

/-- Where one part leads from a place. Going up from the root of all files stays there. -/
def enter (place : Place) (part : Text) : Place :=
  if part = [] ∨ part = ['.'] then place
  else if part = ['.', '.'] then place.dropLast
  else place ++ [part]

/-- The path of what lies at `rest` below the folder at the end of `path`. -/
def below (path : Path) (rest : List Text) : Path :=
  path ++ (if path.getLast? = some '/' then [] else ['/']) ++ List.intercalate ['/'] rest

/-- The name has the extension of a template: `.templ` after at least one other character. -/
def isTemplate (name : Text) : Bool :=
  let ending := ".templ".toList
  ending.isSuffixOf name && ending.length < name.length

end Path

namespace Workspace

def file? (w : Workspace) (place : Place) : Option File :=
  w.files.find? (·.place = place)

/-- The file at `place` lies below the folder, however deep. -/
def isBelow (folder place : Place) : Bool :=
  folder.isPrefixOf place && folder.length < place.length

/-- The folder that a run works in is there, and so are all folders around it. -/
def isFolder (w : Workspace) (place : Place) : Bool :=
  place.isPrefixOf w.here || w.folders.contains place ||
    w.files.any fun f => isBelow place f.place

/-- Where a path starts: at the root of all files, or in the folder that a run works in. -/
def origin (w : Workspace) : Path → Place
  | '/' :: _ => []
  | _ => w.here

/-- Follows the parts of a path from `place`. -/
def follow (w : Workspace) (place : Place) : List Text → Except ReadFault Place
  | [] => .ok place
  | part :: parts =>
    if w.isFolder place then w.follow (Path.enter place part) parts
    else if (w.file? place).isSome then .error .throughFile
    else .error .missing

/-- The empty path leads nowhere. -/
def locate (w : Workspace) (path : Path) : Except ReadFault Place :=
  if path.isEmpty then .error .missing
  else w.follow (w.origin path) (Path.parts path)

def bytesOf (w : Workspace) (path : Path) : Except ReadFault Bytes := do
  let place ← w.locate path
  match w.file? place with
  | some f => .ok f.bytes
  | none => if w.isFolder place then .error .isFolder else .error .missing

def read (w : Workspace) (path : Path) : Except ReadFault Text := do
  match Text.ofUtf8? (← w.bytesOf path) with
  | some t => .ok t
  | none => .error .notUtf8

/-- Gives the file at `place` other bytes. -/
def store (w : Workspace) (place : Place) (bytes : Bytes) : Workspace :=
  { w with files := w.files.map fun f => if f.place = place then { f with bytes } else f }

/-- Gives the file at the end of `path` another text. -/
def write (w : Workspace) (path : Path) (text : Text) : Workspace :=
  match w.locate path with
  | .ok place => w.store place text.utf8
  | .error _ => w

/-- The paths of the template files below the folder at `place`, the end of `path`. -/
def templatesBelow (w : Workspace) (path : Path) (place : Place) : List Path :=
  w.files.filterMap fun f =>
    if isBelow place f.place && f.place.getLast?.any Path.isTemplate then
      some (Path.below path (f.place.drop place.length))
    else none

/-- A path to a file stands for that file if it is a template, a path to a folder for all templates
below it, and a path that leads nowhere for nothing. -/
def collect (w : Workspace) (path : Path) : List Path :=
  match w.locate path with
  | .error _ => []
  | .ok place =>
    match w.file? place with
    | some _ => if place.getLast?.any Path.isTemplate then [path] else []
    | none => w.templatesBelow path place

/-- Without a path that is everything in the folder that a run works in. -/
def collectAll (w : Workspace) (paths : List Path) : List Path :=
  (if paths.isEmpty then [['.']] else paths).flatMap w.collect

end Workspace

end TemplLayout
