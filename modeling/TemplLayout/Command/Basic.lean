import TemplLayout.Workspace.Basic

/-!
# TemplLayout.Command.Basic

What the program can be asked to do.

* `Command`         — format files, show the outline of a file, or tell the version.
* `Command.ofArgs?` — reads a command line; `none` when it makes no sense.
-/

namespace TemplLayout

inductive Command where
  | format (paths : List Path) (write check : Bool)
  | outline (path : Path)
  | version
deriving DecidableEq, Repr

namespace Command

/-- The argument is a path and not a flag. A lone hyphen is a path. -/
def isPathArg (arg : String) : Bool :=
  arg = "-" || (!arg.isEmpty && !arg.startsWith "-")

/-- The arguments of `fmt`, with the paths and flags read before. Each flag comes at most once, and
behind `--` there are only paths. -/
def formatArgs? (paths : List Path) (write check : Bool) : List String → Option Command
  | [] => some (.format paths write check)
  | "--" :: rest =>
    if rest.any (·.isEmpty) then none
    else some (.format (paths ++ rest.map String.toList) write check)
  | arg :: rest =>
    if arg = "--write" then if write then none else formatArgs? paths true check rest
    else if arg = "--check" then if check then none else formatArgs? paths write true rest
    else if isPathArg arg then formatArgs? (paths ++ [arg.toList]) write check rest
    else none

def outlineArgs? : List String → Option Command
  | ["--", arg] => if arg.isEmpty then none else some (.outline arg.toList)
  | [arg, "--"] | [arg] => if isPathArg arg then some (.outline arg.toList) else none
  | _ => none

def ofArgs? : List String → Option Command
  | "fmt" :: rest => formatArgs? [] false false rest
  | "debug" :: rest => outlineArgs? rest
  | arg :: _ => if arg = "--version" || arg.startsWith "-V" then some .version else none
  | [] => none

end Command

end TemplLayout
