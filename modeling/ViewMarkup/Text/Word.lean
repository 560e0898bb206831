import ViewMarkup.Text.Letter
import ViewMarkup.Text.Numeral

/-!
# Words and identifiers

A word is made of letters and numerals of any script and the underscore.  An identifier starts
with an ASCII letter, an underscore or a dollar sign and goes on with word characters and dollar
signs.
-/

namespace ViewMarkup

namespace CodePoint

/-- Letters, numerals and the underscore; combining marks are not word characters. -/
def isWord (c : CodePoint) : Bool :=
  c.isLetter || c.isNumeral || c == '_'

/-- What an identifier may start with. -/
def startsIdentifier (c : CodePoint) : Bool :=
  let n := c.toNat
  (65 ≤ n && n ≤ 90) || (97 ≤ n && n ≤ 122) || c == '_' || c == '$'

/-- What an identifier may go on with. -/
def continuesIdentifier (c : CodePoint) : Bool :=
  c.isWord || c == '$'

end CodePoint

/-- Whether a name can be written bare.  One line feed is tolerated at its very end. -/
def Text.isIdentifier (name : Text) : Bool :=
  match name with
  | [] => false
  | c :: rest =>
    c.startsIdentifier &&
      let tail := rest.dropWhile CodePoint.continuesIdentifier
      tail == [] || tail == [.char '\n']

end ViewMarkup
