import ViewMarkup.Text.CodePoint

/-!
# White space

The code points that separate tokens and that are trimmed from the ends of a text: the Unicode
property `White_Space` together with the four information separators `U+001C` to `U+001F`.  The
zero-width space and the byte order mark are not among them.
-/

namespace ViewMarkup

/-- White space of any script. -/
def CodePoint.isBlank (c : CodePoint) : Bool :=
  let n := c.toNat
  (9 ≤ n && n ≤ 13) || (28 ≤ n && n ≤ 32) || n == 0x85 || n == 0xA0 || n == 0x1680 ||
    (0x2000 ≤ n && n ≤ 0x200A) || n == 0x2028 || n == 0x2029 || n == 0x202F || n == 0x205F ||
    n == 0x3000

namespace Text

/-- The text without the white space at its start. -/
def trimStart (t : Text) : Text :=
  t.dropWhile CodePoint.isBlank

/-- The text without the white space at its end. -/
def trimEnd (t : Text) : Text :=
  (t.reverse.dropWhile CodePoint.isBlank).reverse

/-- The text without the white space at its ends. -/
def trim (t : Text) : Text :=
  t.trimStart.trimEnd

end Text

end ViewMarkup
