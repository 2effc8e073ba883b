import TemplLayout.Text.Basic

/-!
# TemplLayout.Markup.Name

Element names. Case does not matter in the ASCII letters.

* `sameName a b`        — two spellings of one name.
* `isVoid name`         — a void element of HTML, which has no content.
* `isPreformatted name` — an element in whose content every blank character counts.
-/

namespace TemplLayout

def sameName (a b : Text) : Bool :=
  a.folded == b.folded

def voidNames : List Text :=
  ["area", "base", "br", "col", "command", "embed", "hr", "img", "input", "keygen", "link", "meta",
    "param", "source", "track", "wbr"].map String.toList

def preformattedNames : List Text :=
  ["pre", "textarea"].map String.toList

def isVoid (name : Text) : Bool :=
  voidNames.contains name.folded

def isPreformatted (name : Text) : Bool :=
  preformattedNames.contains name.folded

end TemplLayout
