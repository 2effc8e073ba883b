/-!
# TemplLayout.Text.Ranges

Sets of characters, as ranges of code points.
-/

namespace TemplLayout

/-- Ranges of code points, both ends included. -/
abbrev Ranges := List (Nat × Nat)

namespace Ranges

def covers (ranges : Ranges) (c : Char) : Bool :=
  ranges.any fun (first, last) => first ≤ c.toNat && c.toNat ≤ last

end Ranges

end TemplLayout
