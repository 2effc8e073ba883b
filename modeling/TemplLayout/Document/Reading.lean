import TemplLayout.Document.Basic
import TemplLayout.Markup.Nesting
import TemplLayout.Segment.Reader

/-!
# TemplLayout.Document.Reading

Reading a document off the segments of a source.

* `Stage`          — before the package, between declarations, or inside a block.
* `Reading`        — how far a document has been read.
* `Reading.step`   — one segment, or the fault in its place.
* `Reading.finish` — the document, once the source has ended.
* `parse source`   — the document of a source, or the first fault in it.
* `noticed source` — the warnings met on the way, also where the reading ends with a fault.
-/

namespace TemplLayout

/-- The head of a block whose end has not come yet. -/
structure OpenTempl where
  signature : Signature
  gap : Gap
  position : Position
deriving DecidableEq, Repr

inductive Stage where
  | preamble
  | top (package : Package)
  | block (package : Package) (templ : OpenTempl) (nesting : Nesting)
deriving DecidableEq, Repr

structure Reading where
  stage : Stage
  /-- Latest first. -/
  declarations : List Declaration
  /-- What stands before the next directive. -/
  gap : Gap
  /-- The warnings of the blocks that are complete. -/
  warnings : List Warning
deriving DecidableEq, Repr

namespace Reading

def start : Reading := ⟨.preamble, [], .empty, []⟩

/-- A first directive. -/
def packageStep (r : Reading) (d : Directive) : Reading × Option Fault :=
  if d.keyword? ≠ some .package then (r, some (.missingPackage d.position))
  else if !d.argument.isWord then (r, some (.malformedDirective .package d.position))
  else ({ r with stage := .top ⟨d.argument, r.gap, d.position⟩, gap := .empty }, none)

/-- A directive between declarations. -/
def topStep (r : Reading) (package : Package) (d : Directive) : Reading × Option Fault :=
  match d.keyword? with
  | some .package => (r, some (.duplicatePackage d.position package.position))
  | some .importPath =>
    if d.argument.isEmpty then (r, some (.malformedDirective .importPath d.position))
    else
      let i : Import := ⟨d.argument, r.gap, d.position⟩
      ({ r with declarations := .importPath i :: r.declarations, gap := .empty }, none)
  | some .templ =>
    match Signature.ofText? d.argument with
    | none => (r, some (.malformedDirective .templ d.position))
    | some signature =>
      ({ r with stage := .block package ⟨signature, r.gap, d.position⟩ .empty, gap := .empty },
        none)
  | some .endtempl | none => (r, some (.unexpectedDirective d.text d.position))

/-- A directive inside a block. -/
def blockStep (r : Reading) (package : Package) (t : OpenTempl) (nesting : Nesting)
    (d : Directive) : Reading × Option Fault :=
  if d.keyword? = some .templ then (r, some (.nestedTempl t.signature.name d.position))
  else if d.keyword? = some .endtempl ∧ d.argument.isEmpty then
    match nesting.finish with
    | .error fault => (r, some fault)
    | .ok body =>
      let done : Templ := ⟨t.signature, body, t.gap, t.position⟩
      ({ r with
        stage := .top package
        declarations := .templ done :: r.declarations
        warnings := r.warnings ++ nesting.warnings }, none)
  else (r, some (.unexpectedDirective d.text d.position))

def step (r : Reading) : Except Fault Segment → Reading × Option Fault
  | .error fault => (r, some fault)
  | .ok (.literal text position) =>
    match r.stage with
    | .block package t nesting =>
      let (nesting', fault?) := feed Nesting.step nesting (Token.ofText position text)
      ({ r with stage := .block package t nesting' }, fault?)
    | _ => ({ r with gap := .ofText text }, none)
  | .ok (.directive text position) =>
    match r.stage with
    | .preamble => r.packageStep ⟨text, position⟩
    | .top package => r.topStep package ⟨text, position⟩
    | .block package t nesting => r.blockStep package t nesting ⟨text, position⟩

/-- The document, when the source ends at `stop`. -/
def finish (r : Reading) (stop : Position) : Except Fault Document :=
  match r.stage with
  | .preamble => .error (.missingPackage stop)
  | .block _ t _ => .error (.unterminatedTempl t.signature.name t.position)
  | .top package => .ok ⟨package, r.declarations.reverse, r.gap.comment, r.warnings⟩

/-- The warnings so far, those of an open block included. -/
def noticed (r : Reading) : List Warning :=
  match r.stage with
  | .block _ _ nesting => r.warnings ++ nesting.warnings
  | _ => r.warnings

/-- A source read to its end or to its first fault. -/
def ofSource (source : Text) : Reading × Option Fault :=
  feed step start (scan source)

end Reading

def parse (source : Text) : Except Fault Document :=
  match Reading.ofSource source with
  | (_, some fault) => .error fault
  | (r, none) => r.finish (Position.start.after source)

def noticed (source : Text) : List Warning :=
  (Reading.ofSource source).1.noticed

end TemplLayout
