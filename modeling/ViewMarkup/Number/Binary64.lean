/-!
# Double-precision numbers

A binary64 number is given by its 64 bits.  Everything here is exact arithmetic on natural numbers:

* `Binary64.ofDecimal` rounds `digits * 10 ^ exponent` to the nearest double, ties to even;
* `Binary64.shortest` finds the fewest decimal digits that round back to a given double, and of
  those the nearest to it.
-/

namespace ViewMarkup

/-- A double-precision number, given by its bits. -/
structure Binary64 where
  bits : UInt64
  deriving DecidableEq

/-- A positive decimal number: a value of `digits * 10 ^ exponent`. -/
structure Decimal where
  digits : Nat
  exponent : Int
  deriving DecidableEq

namespace Binary64

/-- The quotient of two numbers rounded to the nearest integer, ties to even. -/
def roundDiv (num den : Nat) : Nat :=
  let q := num / den
  let r := num % den
  if 2 * r < den then q
  else if den < 2 * r then q + 1
  else if q % 2 = 0 then q else q + 1

def infinityBits : Nat := 0x7FF0000000000000

/-- The least number that the bits of a significand do not hold. -/
def significandUnit : Nat := 0x10000000000000

/-- The number that the bit of the sign stands for. -/
def signUnit : Nat := 0x8000000000000000

/-- Scales a fraction by a power of two. -/
def scaled (num den : Nat) (power : Int) : Nat × Nat :=
  match power with
  | .ofNat n => (num, den * Nat.pow 2 n)
  | .negSucc n => (num * Nat.pow 2 (n + 1), den)

/-- The bits of the double nearest to a positive fraction. -/
def ratioBits (num den : Nat) : Nat :=
  let guess : Int := (num.log2 : Int) - den.log2 - 52
  let (n, d) := scaled num den guess
  let power := max (-1074) (if n / d < significandUnit then guess - 1 else guess)
  let (n, d) := scaled num den power
  let m := roundDiv n d
  -- rounding up to `2 ^ 53` carries into the exponent by plain addition
  let bits := if m < significandUnit then m else (power + 1074).toNat * significandUnit + m
  min bits infinityBits

/-- The magnitude of a decimal number as bits; exponents beyond the range of doubles are not
expanded. -/
def decimalBits (digits : Nat) (exponent : Int) : Nat :=
  if digits = 0 then 0
  else
    let magnitude : Int := (Nat.toDigits 10 digits).length + exponent
    if 310 < magnitude then infinityBits
    else if magnitude < -330 then 0
    else
      match exponent with
      | .ofNat n => ratioBits (digits * Nat.pow 10 n) 1
      | .negSucc n => ratioBits digits (Nat.pow 10 (n + 1))

/-- The double nearest to `digits * 10 ^ exponent`, with a sign. -/
def ofDecimal (negative : Bool) (digits : Nat) (exponent : Int) : Binary64 :=
  ⟨UInt64.ofNat ((if negative then signUnit else 0) + decimalBits digits exponent)⟩

def infinity (negative : Bool) : Binary64 :=
  ⟨UInt64.ofNat ((if negative then signUnit else 0) + infinityBits)⟩

def nan : Binary64 :=
  ⟨0x7FF8000000000000⟩

def isNegative (x : Binary64) : Bool :=
  x.bits.toNat / signUnit = 1

/-- The bits without the sign. -/
def magnitudeBits (x : Binary64) : Nat :=
  x.bits.toNat % signUnit

/-- The number with the other sign. -/
def negate (x : Binary64) : Binary64 :=
  ⟨UInt64.ofNat (x.magnitudeBits + if x.isNegative then 0 else signUnit)⟩

def isNaN (x : Binary64) : Bool :=
  infinityBits < x.magnitudeBits

def isInfinite (x : Binary64) : Bool :=
  x.magnitudeBits = infinityBits

/-- A finite number without its sign, as `m * 2 ^ q`. -/
def parts (x : Binary64) : Nat × Int :=
  let e : Nat := x.magnitudeBits / significandUnit
  let f : Nat := x.magnitudeBits % significandUnit
  if e = 0 then (f, -1074) else (significandUnit + f, (e : Int) - 1075)

/-- A finite number without its sign, as a fraction. -/
def fraction (x : Binary64) : Nat × Nat :=
  match x.parts with
  | (m, .ofNat n) => (m * Nat.pow 2 n, 1)
  | (m, .negSucc n) => (m, Nat.pow 2 (n + 1))

/-- The integer that a double is equal to, if there is one. -/
def toInt? (x : Binary64) : Option Int :=
  if infinityBits ≤ x.magnitudeBits then none
  else
    let (num, den) := x.fraction
    if num % den = 0 then
      some (if x.isNegative then -((num / den : Nat) : Int) else ((num / den : Nat) : Int))
    else none

/-- The decimal place of the first digit of a positive fraction: the greatest `k` with
`10 ^ k ≤ num / den`, searched downwards from a bound. -/
def leadingPlace (num den : Nat) : (steps : Nat) → (place : Int) → Int
  | 0, place => place
  | steps + 1, place =>
    let fits := match place with
      | .ofNat n => decide (den * Nat.pow 10 n ≤ num)
      | .negSucc n => decide (den ≤ num * Nat.pow 10 (n + 1))
    if fits then place else leadingPlace num den steps (place - 1)

/-- The digits of a positive fraction down to the place `10 ^ place`, rounded down, and whether
the fraction lies below, at or above the middle between that and the next number of so many
digits. -/
def digitsDownTo (num den : Nat) (place : Int) : Nat × Ordering :=
  let (n, d) := match place with
    | .ofNat k => (num, den * Nat.pow 10 k)
    | .negSucc k => (num * Nat.pow 10 (k + 1), den)
  (n / d, compare (2 * (n % d)) d)

/-- The decimal of so many digits that reads back as the given magnitude and lies nearest to it,
if there is one.  A tie goes to the even last digit. -/
def withDigits? (bits num den : Nat) (place : Int) : Option Decimal :=
  let (low, side) := digitsDownTo num den place
  let lowHits := decimalBits low place = bits
  let highHits := decimalBits (low + 1) place = bits
  let nearer := match side with
    | .lt => low
    | .gt => low + 1
    | .eq => if low % 2 = 0 then low else low + 1
  if lowHits && highHits then some ⟨nearer, place⟩
  else if lowHits then some ⟨low, place⟩
  else if highHits then some ⟨low + 1, place⟩
  else none

/-- Tries more and more digits, from the leading place down. -/
def searchShortest (bits num den : Nat) : (steps : Nat) → (place : Int) → Decimal
  | 0, place => ⟨(digitsDownTo num den place).1, place⟩
  | steps + 1, place =>
    match withDigits? bits num den place with
    | some found => found
    | none => searchShortest bits num den steps (place - 1)

/-- The fewest digits that round back to a positive finite double, and of those the nearest. -/
def shortest (x : Binary64) : Decimal :=
  let (num, den) := x.fraction
  searchShortest x.magnitudeBits num den 17 (leadingPlace num den 640 309)

end Binary64

end ViewMarkup
