import TemplLayout.Document.Reading
import TemplLayout.Log.Event
import TemplLayout.Workspace.Basic

/-!
# TemplLayout.Workspace.Events

What there is to report while files are formatted.

* `FileFault`     — why a file could not be formatted.
* `Summary`       — how many files there were, how many of them were not formatted already, and how
  many could not be formatted.
* `readingEvents` — the events of reading one source.
-/

namespace TemplLayout

/-- Why a file could not be formatted. -/
inductive FileFault where
  | unreadable (fault : ReadFault)
  | malformed (fault : Fault)
deriving DecidableEq, Repr

@[ext]
structure Summary where
  files : Nat
  changed : Nat
  failed : Nat
deriving DecidableEq, Repr

namespace Event

def notice (w : Warning) : Event where
  level := .warn
  target := "templfmt::markup"
  message := "void element has content; the content is dropped"
  fields := [("tag", w.tag.string), ("line", toString w.position.line),
    ("column", toString w.position.column)]

def parsed (d : Document) : Event where
  level := .debug
  target := "templfmt::parser"
  message := "parsed template"
  fields := [("nodes", toString (d.declarations.length + 1)),
    ("warnings", toString d.warnings.length)]

def formatted (path : Path) : Event :=
  ⟨.info, "templfmt", "formatted", [("path", path.string)]⟩

def notFormatted (path : Path) : Event :=
  ⟨.warn, "templfmt", "not formatted", [("path", path.string)]⟩

def failed (path : Path) : FileFault → Event
  | .unreadable fault =>
    ⟨.error, "templfmt", "reading " ++ path.string ++ ": " ++ fault.message, []⟩
  | .malformed fault =>
    ⟨.error, "templfmt", "formatting " ++ path.string ++ ": " ++ fault.message, []⟩

def collected (files : Nat) : Event :=
  ⟨.debug, "templfmt", "collected templates", [("files", toString files)]⟩

/-- The last event of a run over files. -/
def finished (s : Summary) : Event :=
  ⟨.info, "templfmt", "formatting finished",
    [("files", toString s.files), ("changed", toString s.changed), ("failed", toString s.failed)]⟩

end Event

/-- The events of reading a source. -/
def readingEvents (source : Text) : List Event :=
  (noticed source).map Event.notice ++
    match parse source with
    | .ok d => [.parsed d]
    | .error _ => []

end TemplLayout
