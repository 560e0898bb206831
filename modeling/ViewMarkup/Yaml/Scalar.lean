import ViewMarkup.Yaml.Value

/-!
# Scalars of YAML documents

A plain scalar stands for a number, a truth value, nothing, a day or a moment if it is written like
one, and otherwise for itself.  A tag before a scalar says what it stands for.

* `Yaml.ofPlain` tells what a plain scalar stands for.
* `Yaml.ofScalar` tells what any scalar stands for.
-/

namespace ViewMarkup.Yaml

/-- The words for true and false. -/
def truthWords : List (Bool × List String) :=
  [(true, ["yes", "Yes", "YES", "true", "True", "TRUE", "on", "On", "ON"]),
   (false, ["no", "No", "NO", "false", "False", "FALSE", "off", "Off", "OFF"])]

/-- The words for nothing. -/
def nullWords : List String :=
  ["", "~", "null", "Null", "NULL"]

/-- Whether a text is one of some words. -/
def isOneOf (t : Text) (words : List String) : Bool :=
  words.any fun word => t = Text.ofString word

/-- A scalar without its sign, and whether the sign is a minus. -/
def splitSign (t : Text) : Bool × Text :=
  match t with
  | .char '-' :: rest => (true, rest)
  | .char '+' :: rest => (false, rest)
  | t => (false, t)

def isDigitOf (base : Nat) (c : CodePoint) : Bool :=
  decide (c.toNat < 128) && (c.digitIn? base).isSome

/-- Digits and underscores. -/
def isLooseDigit (base : Nat) (c : CodePoint) : Bool :=
  isDigitOf base c || c = '_'

/-- The number that digits denote in a base; underscores do not count. -/
def valueIn (base : Nat) (digits : Text) : Nat :=
  digits.foldl (fun n c => (c.digitIn? base).elim n fun d => n * base + d) 0

/-- Whether a text is a nonempty sequence of digits and underscores. -/
def isLooseDigits (base : Nat) (t : Text) : Bool :=
  !t.isEmpty && t.all (isLooseDigit base)

/-- The minutes and seconds after the first part of a number in base sixty. -/
def sixtieths? (parts : List Text) : Option (List Nat) :=
  parts.mapM fun part =>
    match part with
    | [d] => if isDigitOf 10 d then some (valueIn 10 part) else none
    | [t, d] => if isDigitOf 6 t && isDigitOf 10 d then some (valueIn 10 part) else none
    | _ => none

/-- Whether a text starts with a digit that is not zero. -/
def startsPositive (t : Text) : Bool :=
  t.head?.any fun c => isDigitOf 10 c && c != .char '0'

/-- Reads an unsigned integer: binary, octal, hexadecimal, decimal or in base sixty.  The inner
option is empty if there are only underscores after the mark of the base. -/
def natural? (t : Text) : Option (Option Nat) :=
  let based (base : Nat) (digits : Text) : Option (Option Nat) :=
    if isLooseDigits base digits then
      some (if digits.all fun c => c == .char '_' then none else some (valueIn base digits))
    else none
  match t with
  | [.char '0'] => some (some 0)
  | .char '0' :: .char 'b' :: rest => based 2 rest
  | .char '0' :: .char 'x' :: rest => based 16 rest
  | .char '0' :: rest => if isLooseDigits 8 rest then some (some (valueIn 8 rest)) else none
  | _ =>
    if !startsPositive t then none
    else if isLooseDigits 10 t then some (some (valueIn 10 t))
    else
      match t.splitOn ':' with
      | whole :: part :: parts =>
        if isLooseDigits 10 whole then
          (sixtieths? (part :: parts)).map fun parts =>
            some (parts.foldl (fun n p => n * 60 + p) (valueIn 10 whole))
        else none
      | _ => none

/-- Whether a text is an exponent with a sign, or empty. -/
def isExponent (t : Text) : Bool :=
  match t with
  | [] => true
  | e :: sign :: digits =>
    (e = 'e' || e = 'E') && (sign = '+' || sign = '-') && !digits.isEmpty &&
      digits.all (isDigitOf 10)
  | _ => false

/-- Whether a text is written as a decimal fraction.  A number that starts with the point has no
sign. -/
def isFraction (t : Text) : Bool :=
  match t with
  | .char '.' :: rest =>
    rest.head?.any (isDigitOf 10) && isExponent (rest.dropWhile (isLooseDigit 10))
  | t =>
    let unsigned := (splitSign t).2
    unsigned.head?.any (isDigitOf 10) &&
      match unsigned.dropWhile (isLooseDigit 10) with
      | .char '.' :: rest => isExponent (rest.dropWhile (isLooseDigit 10))
      | _ => false

/-- A positive double increased by an integer. -/
def increase (x : Binary64) (n : Nat) : Binary64 :=
  let (num, den) := x.fraction
  match num + n * den with
  | 0 => x
  | num => ⟨UInt64.ofNat (Binary64.ratioBits num den)⟩

/-- Adds up the parts of a number in base sixty, the last one first. -/
def addSixties (x : Binary64) (base : Nat) : List Nat → Binary64
  | [] => x
  | part :: parts => addSixties (increase x (part * base)) (base * 60) parts

/-- Reads an unsigned number in base sixty whose last part has a point. -/
def sixtyFraction? (t : Text) : Option Binary64 :=
  match Text.cut? "." t with
  | none => none
  | some (before, places) =>
    match before.splitOn ':' with
    | first :: part :: parts =>
      if first.head?.any (isDigitOf 10) && first.all (isLooseDigit 10) &&
          places.all (isLooseDigit 10) then do
        let sixtieths ← sixtieths? (part :: parts)
        let last := (parts.getLast?).getD part
        let x ← Number.readFloat? (last ++ "." ++ places.filter fun c => c != .char '_')
        return addSixties x 60 (valueIn 10 first :: sixtieths.dropLast).reverse
      else none
    | _ => none

/-- Reads a scalar written as a number that is not an integer. -/
def fraction? (t : Text) : Option Binary64 :=
  let (negative, unsigned) := splitSign t
  if isOneOf unsigned [".inf", ".Inf", ".INF"] then some (Binary64.infinity negative)
  else if isOneOf t [".nan", ".NaN", ".NAN"] then some Binary64.nan
  else if isFraction t then Number.readFloat? (t.filter fun c => c != .char '_')
  else (sixtyFraction? unsigned).map fun x => if negative then x.negate else x

/-! ### Days and moments -/

/-- The number in front of a text, if it has one of some numbers of digits, and what follows. -/
def digits? (lengths : List Nat) (t : Text) : Option (Nat × Text) :=
  let digits := t.takeWhile (isDigitOf 10)
  if lengths.contains digits.length then some (valueIn 10 digits, t.drop digits.length) else none

/-- The number behind a mark. -/
def digitsAfter? (mark : CodePoint) (lengths : List Nat) (t : Text) : Option (Nat × Text) :=
  match t with
  | c :: rest => if c = mark then digits? lengths rest else none
  | [] => none

def isSpace (c : CodePoint) : Bool :=
  c = ' ' || c = '\t'

/-- The millionths behind the point of a second, and what follows. -/
def millionths (t : Text) : Nat × Text :=
  match t with
  | .char '.' :: rest =>
    let digits := rest.takeWhile (isDigitOf 10)
    (valueIn 10 ((digits ++ List.replicate 6 (CodePoint.char '0')).take 6), rest.drop digits.length)
  | t => (0, t)

/-- How many minutes the zone at the end of a moment is ahead, if one is there. -/
def zone? (t : Text) : Option (Option Int) :=
  if t.isEmpty then some none
  else
    match t.dropWhile isSpace with
    | [.char 'Z'] => some (some 0)
    | sign :: rest =>
      if sign = '+' || sign = '-' then do
        let (hours, rest) ← digits? [1, 2] rest
        let (minutes, rest) ← if rest.isEmpty then some (0, []) else digitsAfter? ':' [2] rest
        let ahead : Int := hours * 60 + minutes
        if rest.isEmpty then some (some (if sign = '-' then -ahead else ahead)) else none
      else none
    | [] => none

/-- What stands behind the mark between a day and a time. -/
def timePart? (t : Text) : Option Text :=
  match t with
  | c :: rest =>
    if c = 'T' || c = 't' then some rest
    else if isSpace c then some (rest.dropWhile isSpace)
    else none
  | [] => none

/-- Reads a day or a moment.  The inner option is empty if there is no such day or moment. -/
def moment? (t : Text) : Option (Option Yaml) := do
  let (year, t) ← digits? [4] t
  let (month, t) ← digitsAfter? '-' [1, 2] t
  let (day, t) ← digitsAfter? '-' [1, 2] t
  let date : Date := ⟨year, month, day⟩
  if t.isEmpty then return if date.isReal then some (.date date) else none
  let (hour, t) ← digits? [1, 2] (← timePart? t)
  let (minute, t) ← digitsAfter? ':' [2] t
  let (second, t) ← digitsAfter? ':' [2] t
  let (millionths, t) := millionths t
  let moment : Moment := ⟨date, hour, minute, second, millionths, ← zone? t⟩
  return if moment.isReal then some (.moment moment) else none

/-- Whether a plain scalar is written as a day or a moment.  A day alone has all its digits. -/
def isMoment (t : Text) : Bool :=
  (moment? t).isSome && 10 ≤ t.length

/-! ### Meaning -/

/-- The value that was read, or the fault if there is none. -/
def orFault (fault : YamlFault) (value : Option Yaml) : Except YamlFault Yaml :=
  match value with
  | some value => .ok value
  | none => .error fault

/-- What a plain scalar stands for. -/
def ofPlain (t : Text) : Except YamlFault Yaml :=
  if isOneOf t nullWords then .ok .null
  else
    match truthWords.find? fun (_, words) => isOneOf t words with
    | some (value, _) => .ok (.boolean value)
    | none =>
      let (negative, unsigned) := splitSign t
      match natural? unsigned with
      | some n =>
        orFault .badNumber (n.map fun n => .number (.int (if negative then -(n : Int) else n)))
      | none =>
        match fraction? t with
        | some x => .ok (.number (.float x))
        | none =>
          if isMoment t then orFault .badNumber (moment? t).join
          else if isOneOf t ["=", "<<"] then .error .malformed
          else .ok (.text t)

/-- The tag before a value. -/
inductive Tag where
  /-- The mark alone, which says that the value is to be told as if it were plain. -/
  | bare
  /-- One of the tags that every document knows. -/
  | core (name : Text)
  | other
  deriving DecidableEq

/-- Whether a tag is a core tag of some name. -/
def Tag.isCore (tag : Tag) (name : String) : Bool :=
  tag = .core (Text.ofString name)

/-- Reads a decimal integer with a sign. -/
def decimal? (t : Text) : Option Int :=
  let (negative, digits) := splitSign t.trimNumber
  (Integer.digits? 10 digits).map fun n => if negative then -(n : Int) else n

/-- Reads a scalar that is tagged as an integer: in the base of its mark, decimal, or in base
sixty. -/
def taggedInteger (t : Text) : Except YamlFault Yaml :=
  let (negative, t) := splitSign (t.filter fun c => c != .char '_')
  let magnitude : Option Int := match t with
    | [.char '0'] => some 0
    | .char '0' :: .char 'b' :: rest => Integer.read? .binary rest
    | .char '0' :: .char 'x' :: rest => Integer.read? .hexadecimal rest
    | .char '0' :: _ => Integer.read? .octal t
    | _ => ((t.splitOn ':').mapM decimal?).map fun parts =>
      parts.foldl (fun n part => n * 60 + part) 0
  if t.isEmpty then .error .noNumber
  else orFault .badNumber (magnitude.map fun n => .number (.int (if negative then -n else n)))

/-- Reads a scalar that is tagged as a number. -/
def taggedFraction (t : Text) : Except YamlFault Yaml :=
  let (negative, t) := splitSign ((t.filter fun c => c != .char '_').map Number.asciiLower)
  let magnitude : Option Binary64 :=
    if t = Text.ofString ".inf" then some (Binary64.infinity false)
    else if t = Text.ofString ".nan" then some Binary64.nan
    else if t.contains (.char ':') then
      sixtyFraction? (if t.contains (.char '.') then t else t ++ ".0")
    else Number.readFloat? t
  let signed (x : Binary64) : Binary64 := if negative && !x.isNaN then x.negate else x
  if t.isEmpty then .error .noNumber
  else orFault .badNumber (magnitude.map fun x => .number (.float (signed x)))

/-- Reads a scalar that is tagged as a truth value; the case does not matter. -/
def taggedTruth (t : Text) : Except YamlFault Yaml :=
  let word := t.map Number.asciiLower
  orFault .notTruth ((truthWords.find? fun (_, words) => isOneOf word words).map fun (value, _) =>
    .boolean value)

/-- Reads a scalar that is tagged as a moment. -/
def taggedMoment (t : Text) : Except YamlFault Yaml :=
  match moment? t with
  | some value => orFault .badNumber value
  | none => .error .notMoment

/-- What a scalar stands for. -/
def ofScalar (tag : Option Tag) (content : Text) (isPlain : Bool) : Except YamlFault Yaml :=
  match tag with
  | none => if isPlain then ofPlain content else .ok (.text content)
  | some .bare => ofPlain content
  | some tag =>
    if tag.isCore "str" then .ok (.text content)
    else if tag.isCore "null" then .ok .null
    else if tag.isCore "bool" then taggedTruth content
    else if tag.isCore "int" then taggedInteger content
    else if tag.isCore "float" then taggedFraction content
    else if tag.isCore "timestamp" then taggedMoment content
    else .error .malformed

end ViewMarkup.Yaml
