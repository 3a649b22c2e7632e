/-!
# Sets of code points

The properties of Unicode are sets of code points, written down as ranges.
-/

namespace FlatLisp.Text

/-- A set of code points, as inclusive ranges. -/
abbrev CodePoints := List (Nat × Nat)

namespace CodePoints

/-- Whether the code point of a character is in the set. -/
def contains (ranges : CodePoints) (c : Char) : Bool :=
  ranges.any fun range => range.1 ≤ c.toNat && c.toNat ≤ range.2

end CodePoints

end FlatLisp.Text
