import ViewMarkup.Number.Basic
import ViewMarkup.Script.Fault

/-!
# Literals

What number and string literals stand for, and how a string is written as a literal.

* `readNumber?` gives the value of a number literal.
* `decodeEscapes` replaces the escape sequences of a string by what they stand for.
* `quote` writes a string between single quotes.
-/

namespace ViewMarkup.Script

/-- The text without any letters `n` at its end, the mark of a big integer. -/
def dropBigMark (t : Text) : Text :=
  (t.reverse.dropWhile fun c => c == .char 'n').reverse

/-- The base that a literal announces after a leading zero, and what follows. -/
def announcedBase? (t : Text) : Option (Base × Text) :=
  match t with
  | .char '0' :: .char letter :: rest =>
    [Base.hexadecimal, Base.octal, Base.binary].findSome? fun base =>
      if letter = base.letters.1 || letter = base.letters.2 then some (base, rest) else none
  | _ => none

/-- The value of a number literal.  Decimal literals are doubles; those without a point and an
exponent count as integers if the double is one. -/
def readNumber? (literal : Text) : Option Number :=
  let t := dropBigMark literal
  match announcedBase? t with
  | some (base, rest) => (Integer.read? base rest).map .int
  | none =>
    (Number.readFloat? t).map fun x =>
      match x.toInt? with
      | some n =>
        if t.any fun c => c == 'e' || c == 'E' || c == '.' then .float x else .int n
      | none => .float x

/-- The code point with a given number.  Numbers that do not fit 32 bits are told apart from those
that merely name no code point. -/
def pointOfEscape (n : Int) : Except EscapeFault CodePoint :=
  if n < -0x80000000 ∨ 0x7FFFFFFF < n then .error .outOfRange
  else
    match n with
    | .negSucc _ => .error .unicode
    | .ofNat n =>
      match CodePoint.ofNat? n with
      | some c => .ok c
      | none => .error .unicode

/-- The code point that the digits of a Unicode escape name. -/
def unicodeEscape (digits : Text) : Except EscapeFault CodePoint :=
  match Integer.read? .hexadecimal digits with
  | none => .error .unicode
  | some n => pointOfEscape n

/-- The value of an ASCII hexadecimal digit. -/
def hexDigit? (c : CodePoint) : Option Nat :=
  if c.toNat < 128 then c.digitIn? 16 else none

/-- What a letter stands for after a backslash. -/
def simpleEscape? (c : CodePoint) : Option Char :=
  match c with
  | .char 'n' => some '\n'
  | .char 't' => some '\t'
  | .char 'r' => some '\r'
  | .char 'b' => some '\x08'
  | .char 'f' => some '\x0c'
  | .char 'v' => some '\x0b'
  | .char '0' => some '\x00'
  | _ => none

/-- What an escape sequence stands for, and what follows it; the backslash has been passed.  A line
end stands for nothing. -/
def escape (t : Text) : Except EscapeFault (Text × Text) :=
  match t with
  | [] => .error .unterminated
  | .char 'x' :: rest =>
    match rest with
    | a :: b :: rest =>
      match hexDigit? a, hexDigit? b with
      | some a, some b =>
        match CodePoint.ofNat? (16 * a + b) with
        | some c => .ok ([c], rest)
        | none => .error .hexadecimal
      | _, _ => .error .hexadecimal
    | _ => .error .hexadecimal
  | .char 'u' :: .char '\x7b' :: rest =>
    let digits := rest.takeWhile fun c => c != .char '\x7d'
    match rest.drop digits.length with
    | [] => .error .unicode
    | _ :: rest =>
      match unicodeEscape digits with
      | .ok c => .ok ([c], rest)
      | .error fault => .error fault
  | .char 'u' :: rest =>
    match unicodeEscape (rest.take 4) with
    | .ok c => .ok ([c], rest.drop 4)
    | .error fault => .error fault
  | .char '\r' :: .char '\n' :: rest => .ok ([], rest)
  | c :: rest =>
    match simpleEscape? c with
    | some stands => .ok ([.char stands], rest)
    | none =>
      if c = '\r' || c = '\n' || c = '\u2028' || c = '\u2029' then .ok ([], rest)
      else .ok ([c], rest)

/-- An escape sequence takes at least one code point. -/
theorem escape_shorter {t decoded rest : Text} (h : escape t = .ok (decoded, rest)) :
    rest.length < t.length := by
  revert h
  fun_cases escape t with
  | case7 rest' digits head rest'' hdrop c hc =>
      intro h
      cases h
      have := congrArg List.length hdrop
      grind
  | _ => grind

/-- A string with its escape sequences replaced by what they stand for. -/
def decodeEscapes : Text → Except EscapeFault Text
  | [] => .ok []
  | c :: rest =>
    if c = '\\' then
      match _h : escape rest with
      | .error fault => .error fault
      | .ok (decoded, following) =>
        match decodeEscapes following with
        | .error fault => .error fault
        | .ok value => .ok (decoded ++ value)
    else
      match decodeEscapes rest with
      | .error fault => .error fault
      | .ok value => .ok (c :: value)
  termination_by t => t.length
  decreasing_by
    · have := escape_shorter _h
      simp only [List.length_cons]
      omega
    · simp

/-- A code point as it is written between single quotes. -/
def quotePoint (c : CodePoint) : Text :=
  match c with
  | .char '\\' => "\\\\"
  | .char '\'' => "\\'"
  | .char '\n' => "\\n"
  | .char '\r' => "\\r"
  | .char '\t' => "\\t"
  | .char '\x08' => "\\b"
  | .char '\x0c' => "\\f"
  | .char '\x0b' => "\\v"
  | .char '\x00' => "\\0"
  | .char '\u2028' => "\\u2028"
  | .char '\u2029' => "\\u2029"
  | c =>
    if c.toNat < 0x20 || c.toNat = 0x7F then
      let digits : Text := (Nat.toDigits 16 c.toNat).map .char
      '\\' :: 'x' :: (List.replicate (2 - digits.length) (.char '0') ++ digits)
    else [c]

/-- A string as a literal between single quotes. -/
def quote (value : Text) : Text :=
  "'" ++ value.flatMap quotePoint ++ "'"

end ViewMarkup.Script
