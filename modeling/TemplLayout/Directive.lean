import TemplLayout.Text.Blank
import TemplLayout.Keyword
import TemplLayout.Position

/-!
# TemplLayout.Directive

What is written inside a directive.

* `Directive`          — its text and its position. The first word is the keyword, what follows is
  the argument.
* `Signature`          — the name and the parameters of a template. The parameters are the text
  between the first `(` and the last `)`, and are not looked into.
-/

namespace TemplLayout

structure Directive where
  text : Text
  position : Position
deriving DecidableEq, Repr

namespace Directive

/-- The word that the directive begins with; `none` when it is no keyword. -/
def keyword? (d : Directive) : Option Keyword :=
  Keyword.ofText? d.text.firstWord

def argument (d : Directive) : Text :=
  d.text.afterWord.trim

/-- The directive as it is written out. -/
def spell (text : Text) : Text :=
  "\x7b% ".toList ++ text ++ " %\x7d".toList

end Directive

structure Signature where
  name : Text
  params : Text
deriving DecidableEq, Repr

namespace Signature

/-- Cuts `t` at its last `)`. -/
def cutLast? (t : Text) : Option (Text × Text) :=
  match t.reverse.dropWhile (· ≠ ')') with
  | [] => none
  | _ :: before => some (before.reverse, (t.reverse.takeWhile (· ≠ ')')).reverse)

/-- Reads `name(params)`. The name is one word, and nothing but blank characters comes behind. -/
def ofText? (t : Text) : Option Signature :=
  match t.dropWhile (· ≠ '(') with
  | [] => none
  | _ :: inner =>
    match cutLast? inner with
    | none => none
    | some (params, behind) =>
      let name := Text.trim (t.takeWhile (· ≠ '('))
      if name.isWord && behind.isBlank then some ⟨name, params.trim⟩ else none

def spell (s : Signature) : Text :=
  s.name ++ '(' :: s.params ++ [')']

end Signature

end TemplLayout
