import TemplLayout.Document.Canonical
import TemplLayout.Workspace.Events

/-!
# TemplLayout.Workspace.Formatting

Formatting the files of a workspace.

* `Mode`              — whether formatted files are printed, written back or only compared.
* `formatFile`        — one file.
* `formatFiles`       — files one after another. A file that fails keeps no other from its turn.
* `Summary.ofResults` — the count of how they fared.
-/

namespace TemplLayout

inductive Mode where
  | print
  | write
  | check
deriving DecidableEq, Repr

/-- How one file fared: whether formatting changes it, or why it could not be formatted. -/
structure FileResult where
  path : Path
  outcome : Except FileFault Bool

/-- What has happened in a run so far. -/
structure Progress where
  workspace : Workspace
  /-- The lines printed. -/
  printed : List String
  events : List Event

/-- The line above the contents of a file. -/
def heading (path : Path) : String :=
  "===== " ++ path.string ++ " ====="

def formatFile (mode : Mode) (s : Progress) (path : Path) : Progress × FileResult :=
  match s.workspace.read path with
  | .error fault => (s, ⟨path, .error (.unreadable fault)⟩)
  | .ok source =>
    let events := s.events ++ readingEvents source
    match format source with
    | .error fault => ({ s with events }, ⟨path, .error (.malformed fault)⟩)
    | .ok output =>
      let changed := decide (output ≠ source)
      let s' :=
        match mode with
        | .print => { s with events, printed := s.printed ++ [heading path ++ "\n", output.string] }
        | .write =>
          if changed then
            { s with
              workspace := s.workspace.write path output
              events := events ++ [.formatted path] }
          else { s with events }
        | .check => { s with events }
      (s', ⟨path, .ok changed⟩)

def formatFiles (mode : Mode) (s : Progress) : List Path → Progress × List FileResult
  | [] => (s, [])
  | path :: paths =>
    let (s', result) := formatFile mode s path
    let (last, results) := formatFiles mode s' paths
    (last, result :: results)

namespace FileResult

def isChanged (r : FileResult) : Bool :=
  match r.outcome with
  | .ok changed => changed
  | .error _ => false

def isFailed (r : FileResult) : Bool :=
  match r.outcome with
  | .ok _ => false
  | .error _ => true

/-- The event that a result gives rise to once all files have had their turn. -/
def events (mode : Mode) (r : FileResult) : List Event :=
  match r.outcome with
  | .error fault => [.failed r.path fault]
  | .ok changed => if changed ∧ mode = .check then [.notFormatted r.path] else []

end FileResult

def Summary.ofResults (results : List FileResult) : Summary where
  files := results.length
  changed := results.countP (·.isChanged)
  failed := results.countP (·.isFailed)

end TemplLayout
