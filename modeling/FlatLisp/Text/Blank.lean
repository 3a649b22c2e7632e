import FlatLisp.Text.CodePoints

/-!
# Blank characters

Words are divided by blanks, which are the twenty-five characters of the Unicode property
`White_Space`. The information separators `U+001C` to `U+001F`, the zero width space and the
byte order mark do not have the property and belong to words.
-/

namespace FlatLisp.Text

/-- Blank characters beyond the ASCII range. -/
def wideBlanks : CodePoints :=
  [(0x85, 0x85), (0xA0, 0xA0), (0x1680, 0x1680), (0x2000, 0x200A), (0x2028, 0x2029),
   (0x202F, 0x202F), (0x205F, 0x205F), (0x3000, 0x3000)]

/-- A character with the property `White_Space`. -/
def isBlank (c : Char) : Bool :=
  c == ' ' || (0x09 ≤ c.toNat && c.toNat ≤ 0x0D) ||
    wideBlanks.contains c

/-- Text without the blanks at its two ends. -/
def trim (cs : List Char) : List Char :=
  ((cs.dropWhile isBlank).reverse.dropWhile isBlank).reverse

end FlatLisp.Text
