import ViewMarkup.Number.Binary64
import ViewMarkup.Number.Integer

/-!
# Numbers

A number is an integer of any size or a double.  This module reads decimal notation and writes
numbers.
-/

namespace ViewMarkup

/-- An exact integer, or a double. -/
inductive Number where
  | int (n : Int)
  | float (x : Binary64)
  deriving DecidableEq

/-- How doubles are written: positionally while the power of ten of the first digit lies in
`[low, high)`, and otherwise with an exponent of at least `exponentWidth` digits and a sign. -/
structure FloatLayout where
  low : Int
  high : Int
  exponentWidth : Nat

namespace FloatLayout

/-- Doubles are written positionally from `0.0001` up to, not including, `10 ^ 16`. -/
def standard : FloatLayout := ⟨-4, 16, 2⟩

/-- A digit string without the zeros at its end. -/
def significant (digits : Nat) : Text :=
  ((Text.ofNat digits).reverse.dropWhile fun c => c == .char '0').reverse

/-- So many zeros. -/
def zeros (n : Nat) : Text :=
  List.replicate n '0'

/-- A nonzero decimal in positional notation, where `place` is the power of ten of its first digit.
There is always a digit on either side of the point. -/
def positional (digits : Text) (place : Int) : Text :=
  match place with
  | .ofNat n =>
    let whole := digits.take (n + 1) ++ zeros (n + 1 - digits.length)
    let places := digits.drop (n + 1)
    whole ++ "." ++ (if places.isEmpty then zeros 1 else places)
  | .negSucc n => "0." ++ zeros n ++ digits

/-- A nonzero decimal with an exponent. -/
def scientific (layout : FloatLayout) (digits : Text) (place : Int) : Text :=
  let point : Text := match digits with
    | first :: rest => if rest.isEmpty then [first] else first :: .char '.' :: rest
    | [] => []
  let sign : CodePoint := if place < 0 then '-' else '+'
  let size := Text.ofNat place.natAbs
  point ++ [.char 'e', sign] ++ zeros (layout.exponentWidth - size.length) ++ size

/-- Writes a double that is a number, without its sign. -/
def writeMagnitude (layout : FloatLayout) (x : Binary64) : Text :=
  if x.isInfinite then "inf"
  else if x.magnitudeBits = 0 then "0.0"
  else
    let decimal := x.shortest
    let digits := significant decimal.digits
    let place := (Text.ofNat decimal.digits).length + decimal.exponent - 1
    if layout.low ≤ place && place < layout.high then positional digits place
    else layout.scientific digits place

/-- Writes a double with the fewest digits that read back. -/
def write (layout : FloatLayout) (x : Binary64) : Text :=
  if x.isNaN then "nan"
  else if x.isNegative then '-' :: layout.writeMagnitude x
  else layout.writeMagnitude x

end FloatLayout

namespace Number

/-- Whether every underscore of a numeral stands between two digits. -/
def underscoresFit : (before : Option CodePoint) → Text → Bool
  | _, [] => true
  | before, c :: rest =>
    (c != '_' ||
      (before.any CodePoint.isDigit && rest.head?.any CodePoint.isDigit)) &&
      underscoresFit (some c) rest

/-- The number that a sequence of digits denotes. -/
def digitsValue (digits : Text) : Nat :=
  digits.foldl (fun acc c => acc * 10 + c.digit?.getD 0) 0

/-- Reads an exponent that fills the whole text; an empty text is the exponent zero. -/
def exponent? (t : Text) : Option Int :=
  match t with
  | [] => some 0
  | e :: rest =>
    if e = 'e' || e = 'E' then
      let (negative, digits) := match rest with
        | .char '-' :: digits => (true, digits)
        | .char '+' :: digits => (false, digits)
        | digits => (false, digits)
      if digits.isEmpty || !digits.all CodePoint.isDigit then none
      else
        let n : Int := digitsValue digits
        some (if negative then -n else n)
    else none

/-- Reads an unsigned decimal number that fills the whole text. -/
def unsigned? (negative : Bool) (t : Text) : Option Binary64 :=
  let whole := t.takeWhile CodePoint.isDigit
  let afterWhole := t.dropWhile CodePoint.isDigit
  let (places, afterPlaces) := match afterWhole with
    | .char '.' :: rest => (rest.takeWhile CodePoint.isDigit, rest.dropWhile CodePoint.isDigit)
    | rest => ([], rest)
  if whole.isEmpty && places.isEmpty then none
  else
    (exponent? afterPlaces).map fun e =>
      Binary64.ofDecimal negative (digitsValue (whole ++ places)) (e - places.length)

/-- ASCII letters in lower case, everything else as it is. -/
def asciiLower (c : CodePoint) : CodePoint :=
  match c with
  | .char c => .char c.toLower
  | c => c

/-- Reads a decimal number, or one of the words for infinity and for no number. -/
def readFloat? (t : Text) : Option Binary64 :=
  let t := t.trimNumber
  let (negative, t) := match t with
    | .char '-' :: rest => (true, rest)
    | .char '+' :: rest => (false, rest)
    | t => (false, t)
  let word := t.map asciiLower
  if word = Text.ofString "inf" || word = Text.ofString "infinity" then
    some (Binary64.infinity negative)
  else if word = Text.ofString "nan" then
    some (if negative then ⟨0xFFF8000000000000⟩ else Binary64.nan)
  else if underscoresFit none t then
    unsigned? negative (t.filter fun c => c != .char '_')
  else none

/-- Writes a number.  A double that is an integer of less than 22 digits is written as one. -/
def write : Number → Text
  | int n => Text.ofInt n
  | float x =>
    match x.toInt? with
    | some n => if n.natAbs < Nat.pow 10 21 then Text.ofInt n else FloatLayout.standard.write x
    | none => FloatLayout.standard.write x

end Number

end ViewMarkup
