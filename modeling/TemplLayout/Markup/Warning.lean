import TemplLayout.Position

/-!
# TemplLayout.Markup.Warning

What a template may have and still be read: a void element with content between its tags. The
content is kept in the forest and left out when it is written.
-/

namespace TemplLayout

structure Warning where
  tag : Text
  position : Position
deriving DecidableEq, Repr

namespace Warning

def message (w : Warning) : String :=
  w.position.label ++ ": void element `<" ++ w.tag.string ++
    ">` has content, which is dropped when formatted as `<" ++ w.tag.string ++ "/>`"

end Warning

end TemplLayout
