import ViewMarkup.Yaml.Scalar

/-!
# Reading JSON

JSON texts are read into the same values as YAML documents.
-/

namespace ViewMarkup.Json

def isBlank (c : CodePoint) : Bool :=
  c = ' ' || c = '\t' || c = '\n' || c = '\r'

def skipBlanks (t : Text) : Text :=
  t.dropWhile isBlank

/-- The value of four hexadecimal digits in front, and what follows. -/
def hex4? (t : Text) : Option (Nat × Text) :=
  let digits := t.take 4
  if digits.length = 4 && digits.all (Yaml.isDigitOf 16) then
    some (Yaml.valueIn 16 digits, t.drop 4)
  else none

/-- The character that two halves of a pair make up. -/
def pair? (high low : Nat) : Option CodePoint :=
  if 0xD800 ≤ high && high < 0xDC00 && 0xDC00 ≤ low && low < 0xE000 then
    CodePoint.ofNat? (0x10000 + (high - 0xD800) * 1024 + (low - 0xDC00))
  else none

/-- The characters that stand for others after a backslash. -/
def escapes : List (Char × Char) :=
  [('"', '"'), ('\\', '\\'), ('/', '/'), ('b', '\x08'), ('f', '\x0c'), ('n', '\n'), ('r', '\r'),
   ('t', '\t')]

/-- An escape after the backslash, and what follows. -/
def escape? (t : Text) : Option (CodePoint × Text) :=
  match t with
  | .char 'u' :: rest =>
    match hex4? rest with
    | none => none
    | some (first, rest) =>
      let single := (CodePoint.ofNat? first).map fun c => (c, rest)
      match rest with
      | .char '\\' :: .char 'u' :: more =>
        match hex4? more with
        | some (second, more) =>
          match pair? first second with
          | some c => some (c, more)
          | none => single
        | none => single
      | _ => single
  | .char c :: rest => (escapes.lookup c).map fun meant => (.char meant, rest)
  | _ => none

/-- The rest of a string up to its closing quote, and what follows. -/
def string? (fuel : Nat) (text : Text) : Text → Option (Text × Text)
  | [] => none
  | c :: rest =>
    match fuel with
    | 0 => none
    | fuel + 1 =>
      if c = '"' then some (text, rest)
      else if c = '\\' then
        match escape? rest with
        | some (meant, rest) => string? fuel (text ++ [meant]) rest
        | none => none
      else if c.toNat < 32 then none
      else string? fuel (text ++ [c]) rest

/-- The length of a number in front; zero if there is none. -/
def numberLength (t : Text) : Nat :=
  let digits (t : Text) : Nat := (t.takeWhile (Yaml.isDigitOf 10)).length
  let sign := if t.head? = some '-' then 1 else 0
  let whole := if (t.drop sign).head? = some '0' then 1 else digits (t.drop sign)
  if whole = 0 then 0
  else
    let n := sign + whole
    let places :=
      if (t.drop n).head? = some '.' then
        match digits (t.drop (n + 1)) with
        | 0 => 0
        | d => d + 1
      else 0
    let n := n + places
    let exponent :=
      match t.drop n with
      | e :: rest =>
        if e = 'e' || e = 'E' then
          let sign := if rest.head? = some '-' || rest.head? = some '+' then 1 else 0
          match digits (rest.drop sign) with
          | 0 => 0
          | d => 1 + sign + d
        else 0
      | [] => 0
    n + exponent

/-- A number in front, and what follows. -/
def number? (t : Text) : Option (Yaml × Text) :=
  match numberLength t with
  | 0 => none
  | n =>
    let written := t.take n
    let value : Option Number :=
      if written.all fun c => Yaml.isDigitOf 10 c || c = .char '-' then
        let (negative, digits) := Yaml.splitSign written
        let size : Int := Yaml.valueIn 10 digits
        some (.int (if negative then -size else size))
      else (Number.readFloat? written).map .float
    value.map fun value => (.number value, t.drop n)

/-- The words that are values. -/
def words : List (String × Yaml) :=
  [("null", .null), ("true", .boolean true), ("false", .boolean false),
   ("NaN", .number (.float Binary64.nan)), ("Infinity", .number (.float (Binary64.infinity false))),
   ("-Infinity", .number (.float (Binary64.infinity true)))]

mutual

/-- A value in front, and what follows. -/
def value? (fuel : Nat) (t : Text) : Option (Yaml × Text) :=
  match fuel with
  | 0 => none
  | fuel + 1 =>
    match t with
    | .char '"' :: rest => (string? rest.length [] rest).map fun (text, rest) => (.text text, rest)
    | .char '[' :: rest =>
      match skipBlanks rest with
      | .char ']' :: rest => some (.list [], rest)
      | rest => (items? fuel rest).map fun (items, rest) => (.list items, rest)
    | .char '\x7b' :: rest =>
      match skipBlanks rest with
      | .char '\x7d' :: rest => some (.map [], rest)
      | rest => (entries? fuel rest).map fun (entries, rest) => (.map entries, rest)
    | t =>
      match words.findSome? fun (word, value) =>
          (Text.after? (Text.ofString word) t).map fun rest => (value, rest) with
      | some result => some result
      | none => number? t

/-- The items of a list, up to its closing bracket. -/
def items? (fuel : Nat) (t : Text) : Option (List Yaml × Text) :=
  match fuel with
  | 0 => none
  | fuel + 1 => do
    let (item, rest) ← value? fuel (skipBlanks t)
    match skipBlanks rest with
    | .char ',' :: rest =>
      let (items, rest) ← items? fuel rest
      return (item :: items, rest)
    | .char ']' :: rest => return ([item], rest)
    | _ => none

/-- The entries of an object, up to its closing brace. -/
def entries? (fuel : Nat) (t : Text) : Option (List (Yaml × Yaml) × Text) :=
  match fuel with
  | 0 => none
  | fuel + 1 => do
    match skipBlanks t with
    | .char '"' :: rest =>
      let (key, rest) ← string? rest.length [] rest
      match skipBlanks rest with
      | .char ':' :: rest =>
        let (value, rest) ← value? fuel (skipBlanks rest)
        match skipBlanks rest with
        | .char ',' :: rest =>
          let (entries, rest) ← entries? fuel rest
          return ((.text key, value) :: entries, rest)
        | .char '\x7d' :: rest => return ([(.text key, value)], rest)
        | _ => none
      | _ => none
    | _ => none

end

/-- Reads a JSON text. -/
def read? (t : Text) : Option Yaml := do
  let (value, rest) ← value? (2 * t.length + 2) (skipBlanks t)
  if (skipBlanks rest).isEmpty then some value else none

end ViewMarkup.Json
