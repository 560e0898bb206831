import ViewMarkup.Text.Basic
import ViewMarkup.Text.Blank
import ViewMarkup.Text.Numeral

/-!
# Reading integers

An integer is written with an optional sign, an optional mark of its base, and digits of any
script, among which single underscores may stand between two digits or right after the mark of
the base.  Blanks around it are ignored.
-/

namespace ViewMarkup

namespace CodePoint

/-- Blanks that may surround a number: white space without the information separators. -/
def padsNumber (c : CodePoint) : Bool :=
  c.isBlank && !(28 ≤ c.toNat && c.toNat ≤ 31)

/-- The value of a digit: decimal digits of any script, then the ASCII letters in either case. -/
def digitValue? (c : CodePoint) : Option Nat :=
  match c.digit? with
  | some d => some d
  | none =>
    let n := c.toNat
    if 97 ≤ n && n ≤ 122 then some (n - 87)
    else if 65 ≤ n && n ≤ 90 then some (n - 55)
    else none

/-- The value of a digit in a base. -/
def digitIn? (base : Nat) (c : CodePoint) : Option Nat :=
  c.digitValue?.filter (· < base)

end CodePoint

namespace Text

/-- The text without the blanks that may surround a number. -/
def trimNumber (t : Text) : Text :=
  ((t.dropWhile CodePoint.padsNumber).reverse.dropWhile CodePoint.padsNumber).reverse

end Text

/-- The bases that a mark after a leading zero can announce. -/
inductive Base where
  | hexadecimal | octal | binary
  deriving DecidableEq

namespace Base

def value : Base → Nat
  | hexadecimal => 16
  | octal => 8
  | binary => 2

/-- The letter of the base, in lower and in upper case. -/
def letters : Base → Char × Char
  | hexadecimal => ('x', 'X')
  | octal => ('o', 'O')
  | binary => ('b', 'B')

end Base

namespace Integer

/-- Goes on reading digits after a digit, with `acc` the value so far. -/
def moreDigits? (base acc : Nat) : Text → Option Nat
  | [] => some acc
  | .char '_' :: c :: rest =>
    (c.digitIn? base).bind fun d => moreDigits? base (acc * base + d) rest
  | c :: rest => (c.digitIn? base).bind fun d => moreDigits? base (acc * base + d) rest

/-- Reads a nonempty sequence of digits. -/
def digits? (base : Nat) : Text → Option Nat
  | [] => none
  | c :: rest => (c.digitIn? base).bind fun d => moreDigits? base d rest

/-- Drops the mark of a base, and one underscore right after it. -/
def dropMark (base : Base) (t : Text) : Text :=
  match t with
  | zero :: .char letter :: rest =>
    if zero.digit? = some 0 && (letter = base.letters.1 || letter = base.letters.2) then
      match rest with
      | .char '_' :: rest => rest
      | rest => rest
    else t
  | _ => t

/-- Reads an integer in a base. -/
def read? (base : Base) (t : Text) : Option Int :=
  match t.trimNumber with
  | .char '-' :: rest => (digits? base.value (dropMark base rest)).map fun n => -(n : Int)
  | .char '+' :: rest => (digits? base.value (dropMark base rest)).map fun n => (n : Int)
  | t => (digits? base.value (dropMark base t)).map fun n => (n : Int)

end Integer

end ViewMarkup
