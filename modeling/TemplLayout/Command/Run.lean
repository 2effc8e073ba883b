import TemplLayout.Command.Basic
import TemplLayout.Log.Filter
import TemplLayout.Outline
import TemplLayout.Workspace.Formatting

/-!
# TemplLayout.Command.Run

Carrying out a command in a workspace.

* `Failure`     — why a run failed as a whole.
* `Outcome`     — what is printed and reported, how the files are afterwards, and why the run failed
  if it did.
* `runOver`     — a run over files that have been collected; `Summary.ofRun` counts how they fared.
* `Command.run` — carries a command out.
-/

namespace TemplLayout

/-- Why a run failed as a whole. -/
inductive Failure where
  | contradictoryFlags
  | notFormattable (files : Nat)
  | unformatted (files : Nat)
  | unreadable (path : Path) (fault : ReadFault)
  | malformed (path : Path) (fault : Fault)
deriving DecidableEq, Repr

namespace Failure

def message : Failure → String
  | .contradictoryFlags => "--write and --check are mutually exclusive"
  | .notFormattable files => toString files ++ " file(s) could not be formatted"
  | .unformatted files => toString files ++ " file(s) are not formatted"
  | .unreadable path _ => "reading " ++ path.string
  | .malformed path _ => "parsing " ++ path.string

def cause? : Failure → Option String
  | .unreadable _ fault => some fault.message
  | .malformed _ fault => some fault.message
  | _ => none

/-- The failure as it is reported, its cause indented below it. -/
def lines (f : Failure) : List String :=
  ("Error: " ++ f.message).splitOn "\n" ++
    match f.cause? with
    | none => []
    | some cause => ["", "Caused by:"] ++ (cause.splitOn "\n").map ("    " ++ ·)

end Failure

structure Outcome where
  workspace : Workspace
  printed : List String
  events : List Event
  failure : Option Failure

namespace Outcome

def exitCode (o : Outcome) : Nat :=
  if o.failure.isSome then 1 else 0

def output (o : Outcome) : String :=
  String.join o.printed

/-- The events that pass the filter, and the failure. -/
def report (filter : Filter) (o : Outcome) : List String :=
  (o.events.filter filter.allows).flatMap Event.lines ++ o.failure.toList.flatMap Failure.lines

end Outcome

namespace Summary

/-- A file that could not be formatted fails the run; when files are only compared, so does one
that is not formatted. -/
def failure? (mode : Mode) (s : Summary) : Option Failure :=
  if 0 < s.failed then some (.notFormattable s.failed)
  else if mode = .check ∧ 0 < s.changed then some (.unformatted s.changed)
  else none

end Summary

/-- The files formatted one after another, in the order given. -/
def formatRun (w : Workspace) (mode : Mode) (files : List Path) : Progress × List FileResult :=
  formatFiles mode ⟨w, [], [.collected files.length]⟩ files

def Summary.ofRun (w : Workspace) (mode : Mode) (files : List Path) : Summary :=
  .ofResults (formatRun w mode files).2

/-- A run over files, in the order given. -/
def runOver (w : Workspace) (mode : Mode) (files : List Path) : Outcome :=
  let (s, results) := formatRun w mode files
  let summary := Summary.ofResults results
  { workspace := s.workspace
    printed := s.printed
    events := s.events ++ results.flatMap (·.events mode) ++ [.finished summary]
    failure := summary.failure? mode }

/-- Formats what the paths stand for, in their order. -/
def runFormat (w : Workspace) (mode : Mode) (paths : List Path) : Outcome :=
  runOver w mode (w.collectAll paths)

def runOutline (w : Workspace) (path : Path) : Outcome :=
  match w.read path with
  | .error fault => ⟨w, [], [], some (.unreadable path fault)⟩
  | .ok source =>
    match parse source with
    | .error fault => ⟨w, [], readingEvents source, some (.malformed path fault)⟩
    | .ok d =>
      let lines := heading path :: d.outline
      ⟨w, lines.map (· ++ "\n"), readingEvents source, none⟩

def Command.run (w : Workspace) : Command → Outcome
  | .format paths write check =>
    if write && check then ⟨w, [], [], some .contradictoryFlags⟩
    else runFormat w (if write then .write else if check then .check else .print) paths
  | .outline path => runOutline w path
  | .version => ⟨w, ["templfmt 0.1.0\n"], [], none⟩

end TemplLayout
