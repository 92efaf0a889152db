import LogTemplate.Text.Basic

namespace LogTemplate

/-- A character with the property White_Space. The zero-width space, the byte order mark and the
information separators are not among them. -/
def isBlank (c : Char) : Bool :=
  let n := c.toNat
  (0x09 ≤ n && n ≤ 0x0D) || n == 0x20 || n == 0x85 || n == 0xA0 || n == 0x1680 ||
    (0x2000 ≤ n && n ≤ 0x200A) || n == 0x2028 || n == 0x2029 || n == 0x202F || n == 0x205F ||
    n == 0x3000

namespace Text

/-- The text from its first character that is not blank. -/
def trimStart (cs : Text) : Text :=
  cs.dropWhile isBlank

/-- The text up to its last character that is not blank. -/
def trimEnd (cs : Text) : Text :=
  (cs.reverse.dropWhile isBlank).reverse

/-- The text without the blanks around it. -/
def trim (cs : Text) : Text :=
  trimEnd (trimStart cs)

end Text

end LogTemplate
